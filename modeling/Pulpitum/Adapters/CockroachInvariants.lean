import Mathlib
import Pulpitum.Support.Runs
import Pulpitum.Adapters.CockroachDurable
import Pulpitum.Adapters.CockroachTime

/-!
# Adapters — Cockroach invariants

The rows of the two tables along every run of the store.  Each operation is taken apart into the
statements that write metadata, so that what a statement *would* write can be said apart from
whether the schema accepts it.

* `body_runs`: the statements of a transaction that commits.
* `writes_accepted`: from what its `WHERE` clause gives, every statement writes a row that
  satisfies the constraint of its state.
* `rows_kept`: **along every run whose appends are of their bucket's partition**, rows satisfy
  the schema, a deleted bucket has no rows left, and what the reads select decodes.
* `misfiled_row_survives`: an append of another partition's record puts a row under a bucket that
  is archived and deleted.
-/

namespace Pulpitum
namespace Cockroach
open Fallible

/-! ### The statements that write metadata -/

/-- A statement that writes `pulpitum_v4_bucket_metadata`. -/
inductive Write where
  /-- `INSERT … ON CONFLICT DO NOTHING`. -/
  | insert (row : MetadataRow)
  /-- `UPDATE … SET … WHERE …`. -/
  | update (ref : BucketRef) (cond : MetadataRow → Bool) (set : MetadataRow → MetadataRow)
      (keeps : ∀ m, (set m).ref = m.ref)

namespace Write

/-- The row the statement would write, with the row it replaces. -/
def row? (db : Db) : Write → Option (Option MetadataRow × MetadataRow)
  | insert row => if (db.metadata.find? row.ref).isNone then some (none, row) else none
  | update ref cond set _ => do
      let m ← db.metadata.find? ref
      if cond m then some (some m, set m) else none

/-- Run the statement. -/
def run (db : Db) : Write → Except DurableBucketStoreError Db
  | insert row => db.insertMetadata row
  | update ref cond set keeps => Prod.snd <$> db.updateMetadata ref cond set keeps

/-- Run statements, one after another. -/
def runAll : List Write → Db → Except DurableBucketStoreError Db
  | [], db => .ok db
  | w :: ws, db => do
      let db ← w.run db
      runAll ws db

/-- The rows that statements would write, with the rows they replace, up to the first statement
that is rejected. -/
def attempted : List Write → Db → List (Option MetadataRow × MetadataRow)
  | [], _ => []
  | w :: ws, db =>
      (w.row? db).toList ++
        match w.run db with
        | .ok db => attempted ws db
        | .error _ => []

end Write

/-- `UPDATE … WHERE table_id = $1 AND … AND generation = $4 AND …`, for the bucket of a session. -/
def ownedWrite (session : ArchiveSession) (cond : MetadataRow → Bool)
    (set : MetadataRow → MetadataRow)
    (keeps : ∀ m, (set m).ref = m.ref := by intro m; exact Eq.refl m.ref) :
    Write :=
  .update (refOf session.bucket) cond set keeps

/-- The statements of an operation that write metadata, once its arguments are computed. -/
def writes (env : Env) : StoreRequest → Except DurableBucketStoreError (List Write)
  | .append bucket _ => .ok [.insert (.new bucket)]
  | .claimArchive bucket leaseFor => do
      let expiresAt ← archiveLeaseExpiry env.utcNow leaseFor
      return [.update (refOf bucket)
        (fun m => attemptDue m env.now &&
          (m.state = .hot || (m.state = .archiving && leaseOver m env.now)))
        (fun m =>
          { m with
            state := .archiving
            generation := m.generation + 1
            archiveOwnerToken := some env.token
            archiveOwnerExpiresAt := some expiresAt
            archiveNextAttemptAt := none
            archiveObjectKey := none
            hotDeleted := false })
        fun m => Eq.refl m.ref]
  | .claimCleanup bucket leaseFor => do
      let expiresAt ← archiveLeaseExpiry env.utcNow leaseFor
      return [.update (refOf bucket)
        (fun m => m.state = .archived && !m.hotDeleted && attemptDue m env.now &&
          (m.archiveOwnerExpiresAt.isNone || leaseOver m env.now))
        (fun m =>
          { m with
            generation := m.generation + 1
            archiveOwnerToken := some env.token
            archiveOwnerExpiresAt := some expiresAt
            archiveNextAttemptAt := none })
        fun m => Eq.refl m.ref]
  | .renewArchiveLease session leaseFor => do
      let _ ← sessionGeneration session
      let expiresAt ← archiveLeaseExpiry env.utcNow leaseFor
      return [ownedWrite session
        (fun m => heldBy m session env.now &&
          (m.state = .archiving || (m.state = .archived && !m.hotDeleted)))
        (fun m => { m with archiveOwnerExpiresAt := some expiresAt })]
  | .deferArchive session retryAfter => do
      let _ ← sessionGeneration session
      let retryAt ← archiveLeaseExpiry env.utcNow retryAfter
      return [ownedWrite session (fun m => m.state = .archiving && heldBy m session env.now)
        (fun m =>
          { m with
            state := .hot
            archiveOwnerToken := none
            archiveOwnerExpiresAt := none
            archiveObjectKey := none
            hotDeleted := false
            archiveAttempts := m.archiveAttempts + 1
            archiveNextAttemptAt := some retryAt })]
  | .deferCleanup session retryAfter => do
      let _ ← sessionGeneration session
      let retryAt ← archiveLeaseExpiry env.utcNow retryAfter
      return [ownedWrite session
        (fun m => m.state = .archived && !m.hotDeleted && heldBy m session env.now)
        (fun m =>
          { m with
            archiveOwnerExpiresAt := some retryAt
            archiveAttempts := m.archiveAttempts + 1
            archiveNextAttemptAt := some retryAt })]
  | .beginArchive bucket =>
      .ok [.insert (.new bucket),
        .update (refOf bucket)
          (fun m => m.state = .hot || (m.state = .archiving && leaseOver m env.now))
          (fun m =>
            { m with
              state := .archiving
              generation := m.generation + 1
              archiveOwnerToken := some env.token
              archiveOwnerExpiresAt := some (env.now + 300000000)
              archiveObjectKey := none
              hotDeleted := false })
          fun m => Eq.refl m.ref]
  | .publishArchive session objectKey => do
      let _ ← sessionGeneration session
      return [ownedWrite session (fun m => m.state = .archiving && heldBy m session env.now)
        (fun m =>
          { m with
            state := .archived
            archiveObjectKey := some objectKey
            hotDeleted := false })]
  | .deleteHotBucket session => do
      let _ ← sessionGeneration session
      return [ownedWrite session (fun m => cleanable m session env.now)
        (fun m => { m with hotDeleted := true })]
  | .abortArchive session => do
      let _ ← sessionGeneration session
      return [ownedWrite session (fun m => m.state = .archiving && heldBy m session env.now)
        (fun m =>
          { m with
            state := .hot
            archiveOwnerToken := none
            archiveOwnerExpiresAt := none
            archiveObjectKey := none
            hotDeleted := false })]
  | .state _ | .discoverArchiveWork _ | .readRange .. | .snapshot _ => .ok []

/-- The rows an operation would write, with the rows they replace. -/
def wouldWrite (env : Env) (q : StoreRequest) (db : Db) :
    List (Option MetadataRow × MetadataRow) :=
  match writes env q with
  | .ok ws => Write.attempted ws db
  | .error _ => []

/-! ### The statements of an operation -/

section Link

variable {env : Env} {db db' : Db} {session : ArchiveSession}

theorem runAll_insert {row : MetadataRow} (h : db.insertMetadata row = .ok db') (ws : List Write) :
    Write.runAll (.insert row :: ws) db = Write.runAll ws db' := by
  simp only [Write.runAll, Write.run, h]
  rfl

theorem runAll_update {ref : BucketRef} {cond : MetadataRow → Bool}
    {set : MetadataRow → MetadataRow} {keeps : ∀ m, (set m).ref = m.ref} {o : Option MetadataRow}
    (h : db.updateMetadata ref cond set keeps = .ok (o, db')) :
    Write.runAll [.update ref cond set keeps] db = .ok db' := by
  simp only [Write.runAll, Write.run, h]
  rfl

theorem runAll_owned {cond : MetadataRow → Bool} {set : MetadataRow → MetadataRow}
    {keeps : ∀ m, (set m).ref = m.ref} (h : updateOwned db session cond set keeps = .ok ((), db')) :
    Write.runAll [ownedWrite session cond set keeps] db = .ok db' := by
  obtain ⟨⟨updated, db₁⟩, h₁, h⟩ := ok_of_bind h
  cases updated with
  | none => cases h
  | some m => cases h; exact runAll_update h₁

/-- An update of metadata does not depend on the records. -/
theorem updateMetadata_of_deleteRecords {p : RecordRow → Bool} {ref : BucketRef}
    {cond : MetadataRow → Bool} {set : MetadataRow → MetadataRow} {keeps : ∀ m, (set m).ref = m.ref}
    {o : Option MetadataRow}
    (h : (db.deleteRecords p).updateMetadata ref cond set keeps = .ok (o, db')) :
    ∃ db₁, db.updateMetadata ref cond set keeps = .ok (o, db₁) ∧ db₁.metadata = db'.metadata := by
  unfold Db.updateMetadata at h ⊢
  split at h
  · cases h
  · rename_i metadata updated hu
    cases h
    split
    · rename_i hn
      cases hn.symm.trans hu
    · rename_i hu'
      cases hu'.symm.trans hu
      exact ⟨_, rfl, rfl⟩

/-- **The statements of a transaction that commits** are the ones listed. -/
theorem body_runs {q : StoreRequest} {v : q.Value} (h : body env q db = .ok (v, db')) :
    ∃ ws db'', writes env q = .ok ws ∧ Write.runAll ws db = .ok db'' ∧
      db''.metadata = db'.metadata := by
  cases q with
  | append b r =>
      change append b r db = _ at h
      unfold append at h
      split at h
      · cases h
      obtain ⟨db₁, h₁, h⟩ := ok_of_bind h
      obtain ⟨st, -, h⟩ := ok_of_bind h
      split at h
      · cases h
      · obtain ⟨db₂, h₂, h⟩ := ok_of_bind h
        cases h
        exact ⟨_, db₁, rfl, runAll_insert h₁ [], (Db.insertRecord_ok h₂).1.symm⟩
      · cases h
  | claimArchive b d | claimCleanup b d =>
      obtain ⟨t, ht, h⟩ := ok_of_bind h
      obtain ⟨⟨row, db₁⟩, h₁, h⟩ := ok_of_bind h
      cases h
      refine ⟨_, db', ?_, runAll_update h₁, rfl⟩
      simp only [writes, ht]; rfl
  | renewArchiveLease session d | deferArchive session d | deferCleanup session d =>
      obtain ⟨g, hg, h⟩ := ok_of_bind h
      obtain ⟨t, ht, h⟩ := ok_of_bind h
      refine ⟨_, db', ?_, runAll_owned h, rfl⟩
      simp only [writes, hg, ht]; rfl
  | beginArchive b =>
      obtain ⟨db₁, h₁, h⟩ := ok_of_bind h
      obtain ⟨⟨row, db₂⟩, h₂, h⟩ := ok_of_bind h
      cases row with
      | none =>
          obtain ⟨st, -, h⟩ := ok_of_bind h
          cases st <;> cases h
      | some m => cases h; exact ⟨_, db', rfl, (runAll_insert h₁ _).trans (runAll_update h₂), rfl⟩
  | publishArchive session key | abortArchive session =>
      obtain ⟨g, hg, h⟩ := ok_of_bind h
      refine ⟨_, db', ?_, runAll_owned h, rfl⟩
      simp only [writes, hg]; rfl
  | deleteHotBucket session =>
      obtain ⟨g, hg, h⟩ := ok_of_bind h
      obtain ⟨⟨row, db₁⟩, h₁, h⟩ := ok_of_bind h
      cases row with
      | none => cases h
      | some m =>
          cases h
          -- the rows are deleted first, which the update does not see
          obtain ⟨db₂, h₂, hmeta⟩ := updateMetadata_of_deleteRecords h₁
          refine ⟨_, db₂, ?_, runAll_update h₂, hmeta⟩
          simp only [writes, hg]; rfl
  | state b =>
      obtain ⟨st, -, h⟩ := ok_of_bind (x := stateFromMetadata db b) h
      cases h; exact ⟨_, db, rfl, rfl, rfl⟩
  | discoverArchiveWork scan =>
      obtain ⟨cleanup, -, h⟩ := ok_of_bind h
      dsimp only at h
      split at h
      · cases h; exact ⟨_, db, rfl, rfl, rfl⟩
      · obtain ⟨cutover, -, h⟩ := ok_of_bind h
        cases h; exact ⟨_, db, rfl, rfl, rfl⟩
  | readRange b range after limit =>
      obtain ⟨records, -, h⟩ := ok_of_bind h
      obtain ⟨read, -, h⟩ := ok_of_bind h
      cases h; exact ⟨_, db, rfl, rfl, rfl⟩
  | snapshot session =>
      have heff := snapshot_effect h
      cases heff with
      | look | snapshot => exact ⟨_, db, rfl, rfl, rfl⟩

end Link

/-! ### What a statement makes of a row -/

namespace Write

/-- The statement makes, from the row it replaces, only rows that `R` relates to it.  All it may
use of the row it replaces is that the schema accepted it and that the `WHERE` clause holds. -/
def Makes (R : Option MetadataRow → MetadataRow → Prop) : Write → Prop
  | insert row => R none row
  | update _ cond set _ => ∀ m, m.Check → cond m = true → R (some m) (set m)

variable {db db' : Db} {w : Write} {ws : List Write} {R : Option MetadataRow → MetadataRow → Prop}
  {old : Option MetadataRow} {row : MetadataRow}

theorem Makes.row? (hw : w.Makes R) (h : w.row? db = some (old, row)) : R old row := by
  cases w with
  | insert r =>
      obtain ⟨-, h⟩ := Option.ite_none_right_eq_some.mp h
      cases h
      exact hw
  | update ref cond set keeps =>
      obtain ⟨m, hm, h⟩ := Option.bind_eq_some_iff.mp h
      obtain ⟨hc, h⟩ := Option.ite_none_right_eq_some.mp h
      cases h
      exact hw m (Table.check_of_find? hm) hc

/-- A row after the statement was there before, or is the one the statement would write. -/
theorem row?_of_run (h : w.run db = .ok db') :
    ∀ m ∈ db'.metadata.rows, m ∈ db.metadata.rows ∨
      ∃ old, w.row? db = some (old, m) ∧ ∀ x ∈ old, x ∈ db.metadata.rows := by
  intro m hm
  cases w with
  | insert r =>
      obtain ⟨-, -, hrows, -⟩ := Db.insertMetadata_ok h
      rcases hrows m hm with hm | ⟨rfl, hn⟩
      · exact .inl hm
      · refine .inr ⟨none, ?_, by simp⟩
        simp [Write.row?, hn]
  | update ref cond set keeps =>
      obtain ⟨⟨o, db₁⟩, h₁, h⟩ := ok_of_bind
        (x := db.updateMetadata ref cond set keeps) (f := fun p => .ok p.2) h
      cases h
      rcases Db.updateMetadata_ok h₁ with ⟨-, rfl, -⟩ | ⟨x, hx, hc, -, -, -, -, hrows⟩
      · exact .inl hm
      · rcases hrows m hm with rfl | hm
        · refine .inr ⟨some x, ?_, ?_⟩
          · simp [Write.row?, hx, hc]
          · simpa using (Table.find?_eq_some_iff.mp hx).1
        · exact .inl hm

/-- A statement is rejected only for the row it would write. -/
theorem row?_of_rejected {e : DurableBucketStoreError} (h : w.run db = .error e) :
    ∃ old m, w.row? db = some (old, m) ∧ ¬ m.Check := by
  cases w with
  | insert r =>
      obtain ⟨hn, hc⟩ := Db.insertMetadata_error h
      exact ⟨none, r, by simp [Write.row?, hn], hc⟩
  | update ref cond set keeps =>
      rcases error_of_bind (x := db.updateMetadata ref cond set keeps)
        (f := fun p => .ok p.2) h with h | ⟨_, _, h⟩
      · obtain ⟨m, hm, hp, hc⟩ := Db.updateMetadata_error h
        exact ⟨some m, set m, by simp [Write.row?, hm, hp], hc⟩
      · cases h

theorem attempted_makes (hws : ∀ w ∈ ws, w.Makes R) :
    ∀ p ∈ attempted ws db, R p.1 p.2 := by
  induction ws generalizing db with
  | nil => simp [attempted]
  | cons w ws ih =>
      intro p hp
      rw [attempted, List.mem_append, Option.mem_toList] at hp
      rcases hp with hp | hp
      · exact (hws w (List.mem_cons_self ..)).row? hp
      · split at hp
        · exact ih (fun w hw => hws w (List.mem_cons_of_mem _ hw)) p hp
        · cases hp

/-- What the statements keep of a row, a run of them keeps of all rows. -/
theorem runAll_keeps {Q : MetadataRow → Prop}
    (hws : ∀ w ∈ ws, w.Makes fun old row => (∀ m ∈ old, Q m) → Q row)
    (hrun : runAll ws db = .ok db') (hdb : ∀ m ∈ db.metadata.rows, Q m) :
    ∀ m ∈ db'.metadata.rows, Q m := by
  induction ws generalizing db with
  | nil => cases hrun; exact hdb
  | cons w ws ih =>
      obtain ⟨db₁, h₁, hrun⟩ := ok_of_bind hrun
      refine ih (fun w hw => hws w (List.mem_cons_of_mem _ hw)) hrun fun m hm => ?_
      rcases row?_of_run h₁ m hm with hm | ⟨old, hrow, hold⟩
      · exact hdb m hm
      · exact (hws w (List.mem_cons_self ..)).row? hrow fun x hx => hdb x (hold x hx)

end Write

/-- The row satisfies the constraint of its state, and its generation fits if that of the row it
replaces is not the last one. -/
def Accepted (old : Option MetadataRow) (row : MetadataRow) : Prop :=
  row.Invariants ∧ ((∀ m ∈ old, m.generation < 2 ^ 63 - 1) → row.generation < 2 ^ 63)

section Makes

variable {env : Env} {q : StoreRequest} {ws : List Write}

theorem accepted_new (b : BucketId) : Accepted none (.new b) :=
  ⟨.inl ⟨rfl, rfl, rfl, rfl, rfl⟩, fun _ => by simp [MetadataRow.new]⟩

/-- A row of the next generation is accepted for its state. -/
theorem accepted_next {m row : MetadataRow} (hg : row.generation ≤ m.generation + 1)
    (h : row.Invariants) : Accepted (some m) row :=
  ⟨h, fun hm => by have := hm m rfl; omega⟩

theorem owner_of_archiving {m : MetadataRow} (h : m.Check) (hs : m.state = .archiving) :
    m.archiveOwnerToken ≠ none ∧ m.archiveObjectKey = none ∧ m.hotDeleted = false := by
  rcases h.2.1 with h | h | h
  · cases hs.symm.trans h.1
  · exact ⟨h.2.1, h.2.2.2⟩
  · cases hs.symm.trans h.1

theorem owner_of_archived {m : MetadataRow} (h : m.Check) (hs : m.state = .archived) :
    m.archiveOwnerToken ≠ none ∧ m.archiveObjectKey ≠ none := by
  rcases h.2.1 with h | h | h
  · cases hs.symm.trans h.1
  · cases hs.symm.trans h.1
  · exact h.2

/-- **Every statement writes a row its constraint accepts**, from what its `WHERE` clause gives. -/
theorem writes_accepted (h : writes env q = .ok ws) : ∀ w ∈ ws, w.Makes Accepted := by
  cases q with
  | append b r =>
      cases h
      exact List.forall_mem_singleton.mpr (accepted_new b)
  | claimArchive b d =>
      obtain ⟨t, -, h⟩ := ok_of_bind h
      cases h
      refine List.forall_mem_singleton.mpr fun m _ _ => accepted_next le_rfl ?_
      exact .inr (.inl ⟨rfl, by simp, by simp, rfl, rfl⟩)
  | claimCleanup b d =>
      obtain ⟨t, -, h⟩ := ok_of_bind h
      cases h
      refine List.forall_mem_singleton.mpr fun m hm hp => accepted_next le_rfl ?_
      simp only [Bool.and_eq_true, decide_eq_true_eq] at hp
      exact .inr (.inr ⟨hp.1.1.1, by simp, (owner_of_archived hm hp.1.1.1).2⟩)
  | renewArchiveLease session d =>
      obtain ⟨g, -, h⟩ := ok_of_bind h
      obtain ⟨t, -, h⟩ := ok_of_bind h
      cases h
      refine List.forall_mem_singleton.mpr fun m hm hp => accepted_next (Nat.le_succ _) ?_
      simp only [Bool.and_eq_true, Bool.or_eq_true, decide_eq_true_eq] at hp
      rcases hp.2 with hs | ⟨hs, -⟩
      · obtain ⟨htok, hkey, hdel⟩ := owner_of_archiving hm hs
        exact .inr (.inl ⟨hs, htok, by simp, hkey, hdel⟩)
      · have howner := owner_of_archived hm hs
        exact .inr (.inr ⟨hs, howner⟩)
  | deferArchive session d =>
      obtain ⟨g, -, h⟩ := ok_of_bind h
      obtain ⟨t, -, h⟩ := ok_of_bind h
      cases h
      refine List.forall_mem_singleton.mpr fun m hm hp => accepted_next (Nat.le_succ _) ?_
      exact .inl ⟨rfl, rfl, rfl, rfl, rfl⟩
  | deferCleanup session d =>
      obtain ⟨g, -, h⟩ := ok_of_bind h
      obtain ⟨t, -, h⟩ := ok_of_bind h
      cases h
      refine List.forall_mem_singleton.mpr fun m hm hp => accepted_next (Nat.le_succ _) ?_
      simp only [Bool.and_eq_true, decide_eq_true_eq] at hp
      have howner := owner_of_archived hm hp.1.1
      exact .inr (.inr ⟨hp.1.1, howner⟩)
  | beginArchive b =>
      cases h
      refine List.forall_mem_cons.mpr ⟨accepted_new b, List.forall_mem_singleton.mpr ?_⟩
      refine fun m _ _ => accepted_next le_rfl ?_
      exact .inr (.inl ⟨rfl, by simp, by simp, rfl, rfl⟩)
  | publishArchive session key =>
      obtain ⟨g, -, h⟩ := ok_of_bind h
      cases h
      refine List.forall_mem_singleton.mpr fun m hm hp => accepted_next (Nat.le_succ _) ?_
      simp only [Bool.and_eq_true, decide_eq_true_eq] at hp
      exact .inr (.inr ⟨rfl, (owner_of_archiving hm hp.1).1, by simp⟩)
  | deleteHotBucket session =>
      obtain ⟨g, -, h⟩ := ok_of_bind h
      cases h
      refine List.forall_mem_singleton.mpr fun m hm hp => accepted_next (Nat.le_succ _) ?_
      simp only [cleanable, Bool.and_eq_true, decide_eq_true_eq] at hp
      have howner := owner_of_archived hm hp.1.1
      exact .inr (.inr ⟨hp.1.1, howner⟩)
  | abortArchive session =>
      obtain ⟨g, -, h⟩ := ok_of_bind h
      cases h
      refine List.forall_mem_singleton.mpr fun m hm hp => accepted_next (Nat.le_succ _) ?_
      exact .inl ⟨rfl, rfl, rfl, rfl, rfl⟩
  | state b | discoverArchiveWork scan | readRange b range after limit | snapshot session =>
      cases h
      exact List.forall_mem_nil _

/-! ### Leases that decode -/

/-- The lease of the row decodes. -/
def LeaseDecodes (m : MetadataRow) : Prop :=
  ∀ t, m.archiveOwnerExpiresAt = some t → ∃ u, DateTime.fromSql t = some u

/-- A lease computed from the client's clock decodes. -/
theorem archiveLeaseExpiry_decodes {utcNow : DateTime} {d : Duration} {t : SqlTime}
    (h : archiveLeaseExpiry utcNow d = .ok t) : ∃ u, DateTime.fromSql t = some u := by
  unfold archiveLeaseExpiry at h
  split at h
  · cases h
  · split at h
    · cases h
    · rename_i u hu
      cases h
      exact DateTime.exists_fromSql_toSql (DateTime.ofNanos_eq_some hu).2

/-- The lease that `begin_archive` takes from the server's clock is a time of `chrono`. -/
def Timely (env : Env) : StoreRequest → Prop
  | .beginArchive _ => ∃ t, DateTime.fromSql (env.now + 300000000) = some t
  | _ => True

theorem leaseDecodes_of_eq {m row : MetadataRow} {t : SqlTime}
    (h : row.archiveOwnerExpiresAt = some t) (ht : ∃ u, DateTime.fromSql t = some u) :
    (∀ x ∈ some m, LeaseDecodes x) → LeaseDecodes row := by
  rintro - t' h'
  cases h.symm.trans h'
  exact ht

theorem leaseDecodes_of_none {o : Option MetadataRow} {row : MetadataRow}
    (h : row.archiveOwnerExpiresAt = none) : (∀ x ∈ o, LeaseDecodes x) → LeaseDecodes row := by
  rintro - t h'
  cases h.symm.trans h'

theorem leaseDecodes_of_same {m row : MetadataRow}
    (h : row.archiveOwnerExpiresAt = m.archiveOwnerExpiresAt) :
    (∀ x ∈ some m, LeaseDecodes x) → LeaseDecodes row :=
  fun hm t ht => hm m rfl t (h.symm.trans ht)

/-- Every statement keeps leases that decode. -/
theorem writes_decodable (hq : Timely env q) (h : writes env q = .ok ws) :
    ∀ w ∈ ws, w.Makes fun old row => (∀ m ∈ old, LeaseDecodes m) → LeaseDecodes row := by
  cases q with
  | append b r =>
      cases h
      exact List.forall_mem_singleton.mpr (leaseDecodes_of_none rfl)
  | claimArchive b d | claimCleanup b d =>
      obtain ⟨t, ht, h⟩ := ok_of_bind h
      cases h
      refine List.forall_mem_singleton.mpr fun m _ _ => ?_
      exact leaseDecodes_of_eq rfl (archiveLeaseExpiry_decodes ht)
  | renewArchiveLease session d | deferCleanup session d =>
      obtain ⟨g, -, h⟩ := ok_of_bind h
      obtain ⟨t, ht, h⟩ := ok_of_bind h
      cases h
      refine List.forall_mem_singleton.mpr fun m _ _ => ?_
      exact leaseDecodes_of_eq rfl (archiveLeaseExpiry_decodes ht)
  | deferArchive session d =>
      obtain ⟨g, -, h⟩ := ok_of_bind h
      obtain ⟨t, ht, h⟩ := ok_of_bind h
      cases h
      exact List.forall_mem_singleton.mpr fun m _ _ => leaseDecodes_of_none rfl
  | beginArchive b =>
      cases h
      refine List.forall_mem_cons.mpr ⟨leaseDecodes_of_none rfl, ?_⟩
      exact List.forall_mem_singleton.mpr fun m _ _ => leaseDecodes_of_eq rfl hq
  | publishArchive session key | deleteHotBucket session =>
      obtain ⟨g, -, h⟩ := ok_of_bind h
      cases h
      exact List.forall_mem_singleton.mpr fun m _ _ => leaseDecodes_of_same rfl
  | abortArchive session =>
      obtain ⟨g, -, h⟩ := ok_of_bind h
      cases h
      exact List.forall_mem_singleton.mpr fun m _ _ => leaseDecodes_of_none rfl
  | state b | discoverArchiveWork scan | readRange b range after limit | snapshot session =>
      cases h
      exact List.forall_mem_nil _

end Makes

/-! ### Runs -/

/-- A record is appended to a bucket of its own partition. -/
def OwnPartition : StoreRequest → Prop
  | .append b r => b.partitionKey = r.partitionKey
  | _ => True

/-- A bucket that is archived and deleted has no rows. -/
def Emptied (db : Db) : Prop :=
  ∀ k m, db.metadata.find? k = some m → m.state = .archived → m.hotDeleted = true →
    rowsOf db k = []

section Step

variable {db db' : Db} {c : Call Env}

theorem Emptied.of_setsRow (h : Emptied db) {k : BucketRef} {row : MetadataRow}
    (hset : SetsRow db k row db') (hr : db'.records = db.records)
    (hrow : row.state = .archived → row.hotDeleted = true →
      ∃ m, db.metadata.find? k = some m ∧ m.state = .archived ∧ m.hotDeleted = true) :
    Emptied db' := by
  intro k' m hm hs hd
  rw [hset.find?] at hm
  rw [rowsOf_congr hr]
  split at hm
  · rename_i e
    subst e
    cases hm
    obtain ⟨m', hm', hs', hd'⟩ := hrow hs hd
    exact h _ m' hm' hs' hd'
  · exact h _ m hm hs hd

/-- A call keeps deleted buckets empty if it appends no record of another partition. -/
theorem emptied_step (hs : Call.Step exec db c db') (hq : OwnPartition c.request)
    (h : Emptied db) : Emptied db' := by
  obtain ⟨env, q, reply⟩ := c
  have heff := exec_effect env q db
  rw [show exec env q db = (reply, db') from hs] at heff
  cases heff with
  | look | snapshot => exact h
  | append _ hp hset _ hr =>
      intro k m hm hst hd
      rw [hset.find?] at hm
      split at hm
      · cases hm
        cases hp.symm.trans hst
      · rename_i hne
        rw [rowsOf_append hr, h k m hm hst hd, ref_new hq, if_neg hne]
        rfl
  | deleteHot _ _ _ hset hr =>
      intro k m hm hst hd
      rw [hset.find?] at hm
      rw [rowsOf_delete hr]
      split at hm
      · rename_i e
        rw [if_pos e]
      · rename_i hne
        rw [if_neg hne]
        exact h k m hm hst hd
  | claimArchive _ _ hset hr | deferArchive _ _ _ hset hr | beginArchive _ hset hr
  | abort _ _ _ hset hr => exact h.of_setsRow hset hr nofun
  | claimCleanup _ hp hset hr | deferCleanup _ hp _ hset hr =>
      exact h.of_setsRow hset hr fun _ hd => by cases hp.2.symm.trans hd
  | publish _ _ _ hset hr => exact h.of_setsRow hset hr fun _ hd => by cases hd
  | renew hk _ hset hr => exact h.of_setsRow hset hr fun hst hd => ⟨_, hk, hst, hd⟩

/-- What the statements of a call keep of a row, the call keeps of all rows. -/
theorem keep_rows_step {Q : MetadataRow → Prop} (hs : Call.Step exec db c db')
    (hwrites : ∀ ws, writes c.env c.request = .ok ws →
      ∀ w ∈ ws, w.Makes fun old row => (∀ m ∈ old, Q m) → Q row)
    (h : ∀ m ∈ db.metadata.rows, Q m) : ∀ m ∈ db'.metadata.rows, Q m := by
  obtain ⟨env, q, reply⟩ := c
  change exec env q db = (reply, db') at hs
  unfold exec at hs
  cases hbody : body env q db with
  | error e =>
      rw [hbody] at hs
      cases hs
      exact h
  | ok p =>
      rw [hbody] at hs
      cases hs
      obtain ⟨ws, db'', hws, hrun, hmeta⟩ := body_runs hbody
      rw [← hmeta]
      exact Write.runAll_keeps (hwrites ws hws) hrun h

/-- A call keeps leases that decode. -/
theorem decodes_step (hs : Call.Step exec db c db') (hq : Timely c.env c.request)
    (h : ∀ m ∈ db.metadata.rows, LeaseDecodes m) : ∀ m ∈ db'.metadata.rows, LeaseDecodes m :=
  keep_rows_step hs (fun _ hws => writes_decodable hq hws) h

end Step

/-! ### What the reads select -/

/-- The state and the object key that the statement of `read_range` selects. -/
def selectedRoute (db : Db) (bucket : BucketId) : RowState × Option String :=
  match db.metadata.find? (refOf bucket) with
  | some m => (m.state, m.archiveObjectKey)
  | none => (RowState.hot, none)

/-- The record rows it selects. -/
def selectedRows (db : Db) (bucket : BucketId) (range : TimeRange) (after : Option Cursor)
    (limit : ℕ) : List RecordRow :=
  let rows := (rowsOf db (refOf bucket)).filter fun r =>
    (selectedRoute db bucket).1 ≠ .archived && inSqlRange range r && afterSqlCursor after r
  (sortRows rows).take (sqlLimit limit)

/-- A row that the schema accepts is a state, if its lease decodes. -/
theorem metadataState_cases {m : MetadataRow} (hc : m.Invariants) (hd : LeaseDecodes m) :
    (m.state = .hot ∧ metadataState m = .ok .hot) ∨
      (m.state = .archiving ∧ metadataState m = .ok .archiving) ∨
      ∃ key, m.state = .archived ∧ m.archiveObjectKey = some key ∧
        metadataState m = .ok (.archived key m.hotDeleted) := by
  have hlease : m.archiveOwnerExpiresAt.map DateTime.fromSql ≠ some none := by
    intro h
    obtain ⟨t, ht, hn⟩ := Option.map_eq_some_iff.mp h
    obtain ⟨u, hu⟩ := hd t ht
    cases hn.symm.trans hu
  unfold metadataState
  rw [if_neg hlease]
  rcases hc with ⟨hs, htok, hexp, hkey, hdel⟩ | ⟨hs, htok, hexp, hkey, hdel⟩ | ⟨hs, htok, hkey⟩
  · simp [hs, htok, hexp, hkey, hdel]
  · obtain ⟨tok, htok⟩ := Option.ne_none_iff_exists'.mp htok
    obtain ⟨t, hexp⟩ := Option.ne_none_iff_exists'.mp hexp
    simp [hs, htok, hexp, hkey, hdel]
  · obtain ⟨tok, htok⟩ := Option.ne_none_iff_exists'.mp htok
    obtain ⟨key, hkey⟩ := Option.ne_none_iff_exists'.mp hkey
    simp [hs, htok, hkey]

/-- What the statement of `read_range` selects is a read. -/
theorem exists_routedRead {db : Db} {bucket : BucketId} {range : TimeRange}
    {after : Option Cursor} {limit : ℕ} {records : List Record}
    (h : decodeRows (selectedRows db bucket range after limit) = .ok records) :
    ∃ read, routedReadFromSnapshot (selectedRoute db bucket).1 (selectedRoute db bucket).2 records
      = .ok read := by
  cases hm : db.metadata.find? (refOf bucket) with
  | none => exact ⟨.hot records, by simp [selectedRoute, hm, routedReadFromSnapshot]⟩
  | some m =>
      rcases (Table.check_of_find? hm).2.1 with hi | hi | hi
      · exact ⟨.hot records, by simp [selectedRoute, hm, routedReadFromSnapshot, hi.1, hi.2.2.2.1]⟩
      · exact ⟨.hot records, by simp [selectedRoute, hm, routedReadFromSnapshot, hi.1, hi.2.2.2.1]⟩
      · -- the statement joins no record rows to an archived bucket
        obtain ⟨key, hkey⟩ := Option.ne_none_iff_exists'.mp hi.2.2
        have hnil : records = [] := by
          simpa [selectedRows, selectedRoute, hm, hi.1, sortRows, decodeRows] using h.symm
        exact ⟨.archive key, by simp [selectedRoute, hm, routedReadFromSnapshot, hi.1, hkey, hnil]⟩

/-! ### The tables of a run -/

/-- What holds of the tables that a run leaves. -/
structure Kept (db : Db) : Prop where
  /-- Whatever is called next, the rows it would write satisfy the constraints. -/
  accepted : ∀ env q, ∀ p ∈ wouldWrite env q db, Accepted p.1 p.2
  /-- A statement is rejected only for the bounds of its bucket, or for a counter at its limit. -/
  rejected : ∀ env q ws e, writes env q = .ok ws → Write.runAll ws db = .error e →
    ∃ p ∈ wouldWrite env q db, p.2.bucketEnd ≤ p.2.bucketStart ∨ 2 ^ 63 ≤ p.2.archiveAttempts ∨
      ∃ m ∈ p.1, 2 ^ 63 - 1 ≤ m.generation
  /-- A bucket that is archived and deleted has no rows. -/
  emptied : ∀ m ∈ db.metadata.rows, m.state = .archived → m.hotDeleted = true →
    rowsOf db m.ref = []
  /-- A row that is stored, or was inserted by the transaction that reads it, is a state. -/
  decodes : ∀ m, (m ∈ db.metadata.rows ∨ ∃ b, m = .new b) → ∃ state, metadataState m = .ok state
  /-- What `read_range` selects is a read. -/
  reads : ∀ bucket range after limit records,
    decodeRows (selectedRows db bucket range after limit) = .ok records →
      ∃ read, routedReadFromSnapshot (selectedRoute db bucket).1 (selectedRoute db bucket).2 records
        = .ok read

/-- The statements of an operation are rejected only at a row they would write. -/
theorem attempted_of_rejected {ws : List Write} {db : Db} {e : DurableBucketStoreError}
    (h : Write.runAll ws db = .error e) : ∃ p ∈ Write.attempted ws db, ¬ p.2.Check := by
  induction ws generalizing db with
  | nil => cases h
  | cons w ws ih =>
      rcases error_of_bind h with h | ⟨db₁, h₁, h⟩
      · obtain ⟨old, m, hrow, hc⟩ := Write.row?_of_rejected h
        exact ⟨(old, m), by simp [Write.attempted, hrow], hc⟩
      · obtain ⟨p, hp, hc⟩ := ih h
        exact ⟨p, by simp [Write.attempted, h₁, hp], hc⟩

theorem accepted_of_wouldWrite {env : Env} {q : StoreRequest} {db : Db} :
    ∀ p ∈ wouldWrite env q db, Accepted p.1 p.2 := by
  unfold wouldWrite
  split
  · rename_i ws hws
    exact Write.attempted_makes (writes_accepted hws)
  · exact List.forall_mem_nil _

/-- What a statement is rejected for, when it is not for the state or the generation. -/
theorem rejected_for {env : Env} {q : StoreRequest} {db : Db} {ws : List Write}
    {e : DurableBucketStoreError} (hws : writes env q = .ok ws)
    (h : Write.runAll ws db = .error e) :
    ∃ p ∈ wouldWrite env q db, p.2.bucketEnd ≤ p.2.bucketStart ∨ 2 ^ 63 ≤ p.2.archiveAttempts ∨
      ∃ m ∈ p.1, 2 ^ 63 - 1 ≤ m.generation := by
  obtain ⟨p, hp, hc⟩ := attempted_of_rejected h
  have hmem : p ∈ wouldWrite env q db := by
    rw [wouldWrite, hws]
    exact hp
  obtain ⟨hinv, hgen⟩ := accepted_of_wouldWrite p hmem
  refine ⟨p, hmem, ?_⟩
  by_contra hno
  simp only [not_or, not_le, not_exists, not_and] at hno
  exact hc ⟨hno.1, hinv, hgen hno.2.2, hno.2.1⟩

/-- What a run keeps of its tables. -/
theorem emptied_and_decodes {calls : List (Call Env)} {db : Db}
    (hrun : Run (Call.Step exec) Db.empty calls db)
    (hcalls : ∀ c ∈ calls, OwnPartition c.request ∧ Timely c.env c.request) :
    Emptied db ∧ ∀ m ∈ db.metadata.rows, LeaseDecodes m := by
  refine Run.rec_last (P := fun calls db =>
    (∀ c ∈ calls, OwnPartition c.request ∧ Timely c.env c.request) →
      Emptied db ∧ ∀ m ∈ db.metadata.rows, LeaseDecodes m) ?_ ?_ hrun hcalls
  · refine fun _ => ⟨fun k m hm => ?_, fun m hm => ?_⟩ <;> cases hm
  · intro calls db c db' _ ih hs hcalls
    obtain ⟨hcalls, hc⟩ := List.forall_mem_append.mp hcalls
    obtain ⟨hown, htime⟩ := List.forall_mem_singleton.mp hc
    obtain ⟨hempty, hdec⟩ := ih hcalls
    exact ⟨emptied_step hs hown hempty, decodes_step hs htime hdec⟩

/-- **The tables of a run.**  If every record is appended to a bucket of its own partition, and
every lease that `begin_archive` takes is a time of `chrono`, then along the run no statement is
rejected by the constraints on state and generation, deleted buckets are empty, and every row
decodes. -/
theorem rows_kept {calls : List (Call Env)} {db : Db}
    (hrun : Run (Call.Step exec) Db.empty calls db)
    (hcalls : ∀ c ∈ calls, OwnPartition c.request ∧ Timely c.env c.request) : Kept db := by
  obtain ⟨hempty, hdec⟩ := emptied_and_decodes hrun hcalls
  refine ⟨fun _ _ => accepted_of_wouldWrite, fun _ _ _ _ hws h => rejected_for hws h,
    fun m hm hs hd => ?_, ?_, fun _ _ _ _ _ h => exists_routedRead h⟩
  · exact hempty m.ref m (Table.find?_eq_some_iff.mpr ⟨hm, rfl⟩) hs hd
  · rintro m (hm | ⟨b, rfl⟩)
    · rcases metadataState_cases (db.metadata.checked m hm).2.1 (hdec m hm) with
        ⟨-, h⟩ | ⟨-, h⟩ | ⟨key, -, -, h⟩ <;> exact ⟨_, h⟩
    · exact ⟨.hot, rfl⟩

/-! ### Samples -/

namespace Sample
open Pulpitum.Sample

/-- The cutover of the year bucket, and an append of a record of its partition to `b`. -/
def cutoverThenAppend (b : BucketId) : List StoreRequest :=
  [.beginArchive bucket, .publishArchive ⟨bucket, "a", 1⟩ "object",
    .deleteHotBucket ⟨bucket, "a", 1⟩, .append b record]

/-- The database after some operations. -/
def after : List StoreRequest → Db → Db
  | [], db => db
  | q :: qs, db => after qs (exec (env "a") q db).2

/-- The calls of the operations. -/
def callsOf : List StoreRequest → Db → List (Call Env)
  | [], _ => []
  | q :: qs, db => Call.of exec (env "a") q db :: callsOf qs (exec (env "a") q db).2

theorem run_callsOf (qs : List StoreRequest) (db : Db) :
    Run (Call.Step exec) db (callsOf qs db) (after qs db) := by
  induction qs generalizing db with
  | nil => exact .refl _
  | cons q qs ih => exact .more (Call.step_of ..) (ih _)

end Sample

/-- The tables are kept through the cutover of a bucket; the append after it is refused. -/
theorem rows_kept_of_cutover :
    Kept (Sample.after (Sample.cutoverThenAppend Pulpitum.Sample.bucket) Db.empty) := by
  refine rows_kept (Sample.run_callsOf _ _) ?_
  refine List.forall_mem_cons.mpr ⟨⟨trivial, ⟨_, rfl⟩⟩,
    List.forall_mem_cons.mpr ⟨⟨trivial, trivial⟩,
      List.forall_mem_cons.mpr ⟨⟨trivial, trivial⟩, List.forall_mem_singleton.mpr ⟨rfl, trivial⟩⟩⟩⟩

/-- **A row under a deleted bucket.**  A bucket is archived and deleted; an append to the bucket of
another partition, which is hot, then stores a record of the first partition under it. -/
theorem misfiled_row_survives :
    ∃ calls db m, Run (Call.Step exec) Db.empty calls db ∧ m ∈ db.metadata.rows ∧
      m.state = .archived ∧ m.hotDeleted = true ∧ rowsOf db m.ref ≠ [] := by
  let db := Sample.after (Sample.cutoverThenAppend Sample.otherPartition) Db.empty
  have hrow : rowsOf db (refOf Pulpitum.Sample.bucket) =
      [.new Sample.otherPartition Pulpitum.Sample.record] := rfl
  obtain ⟨m, hm, hs, hd⟩ : ∃ m, db.metadata.find? (refOf Pulpitum.Sample.bucket) = some m ∧
      m.state = .archived ∧ m.hotDeleted = true := ⟨_, rfl, rfl, rfl⟩
  obtain ⟨hmem, hkey⟩ := Table.find?_eq_some_iff.mp hm
  refine ⟨_, db, m, Sample.run_callsOf _ _, hmem, hs, hd, ?_⟩
  rw [hkey, hrow]
  exact List.cons_ne_nil _ _

end Cockroach
end Pulpitum
