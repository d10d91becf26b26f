import Mathlib
import Pulpitum.Support.Lockstep
import Pulpitum.Adapters.StoreRelation

/-!
# Adapters — The in-memory store against the Cockroach store

Both stores are given the same calls, with the same clock readings and the same tokens.  They
answer alike and stay related as long as every call is `Covered`.

* `covered_alike`: one call, from related stores.
* `memory_simulates_cockroach`: **every sequence of covered calls** gets the same results from
  both stores and leaves them related.
* `duplicate_append_diverges`: an append that repeats a clustering key succeeds in memory and fails
  in the database.
-/

namespace Pulpitum
namespace Simulation

open Cockroach (MetadataRow RecordRow Db SetsRow refOf rowOrNew rowsOf decodeRows sortRows
  LeaseDecodes)
open InMemory (Entry Store orDefault)
open Fallible

/-! ### The calls -/

/-- What both stores read during a call: one reading to compare leases and retry times with, one to
count them from, and a fresh token. -/
structure Feed (origin : DateTime) where
  /-- The monotonic clock, to compare with. -/
  now : Instant
  /-- The monotonic clock, to count from. -/
  base : Instant
  /-- The server's `now()`. -/
  sqlNow : SqlTime
  /-- The client's `Utc::now()`. -/
  utcNow : DateTime
  token : String
  same_now : SameTime origin now sqlNow
  same_base : utcNow.nanos = origin.nanos + (base : ℤ)

/-- What the in-memory store reads: `claim_*` compare first and count then, the other operations
on a session the other way. -/
def Feed.memory {origin : DateTime} (f : Feed origin) : StoreRequest → InMemory.Env
  | .renewArchiveLease .. | .deferArchive .. | .deferCleanup .. => ⟨f.base, f.now, f.token⟩
  | _ => ⟨f.now, f.base, f.token⟩

/-- What the Cockroach store reads. -/
def Feed.cockroach {origin : DateTime} (f : Feed origin) : Cockroach.Env :=
  ⟨f.sqlNow, f.utcNow, f.token⟩

@[simp]
theorem Feed.cockroach_now {origin : DateTime} (f : Feed origin) : f.cockroach.now = f.sqlNow := rfl

/-- A call with what the stores read during it. -/
structure Input (origin : DateTime) where
  feed : Feed origin
  request : StoreRequest

/-- The in-memory store. -/
def memory (origin : DateTime) : Machine (fun i : Input origin => i.request.Reply) Store :=
  fun i s => InMemory.exec (i.feed.memory i.request) i.request s

/-- The Cockroach store. -/
def cockroach (origin : DateTime) : Machine (fun i : Input origin => i.request.Reply) Db :=
  fun i db => Cockroach.exec i.feed.cockroach i.request db

/-- The bucket of a call, for the operations on one bucket other than reads of a range. -/
def target? : StoreRequest → Option BucketId
  | .append b _ | .state b | .beginArchive b | .claimArchive b _ | .claimCleanup b _ => some b
  | .renewArchiveLease session _ | .snapshot session | .publishArchive session _
  | .deleteHotBucket session | .abortArchive session | .deferArchive session _
  | .deferCleanup session _ => some session.bucket
  | .discoverArchiveWork _ | .readRange .. => none

/-! ### Covered calls -/

/-- Both stores refuse the length of the lease. -/
def LeaseRefused {origin : DateTime} (f : Feed origin) (d : Duration) : Prop :=
  d = 0 ∨ Instant.max < f.base + d

/-- The end of a lease of length `d` is a time both clocks have; a call that takes effect needs it
on a whole microsecond, and `effect` besides. -/
def LeaseFits {origin : DateTime} (f : Feed origin) (d : Duration) (takes effect : Prop) : Prop :=
  ∃ t, DateTime.ofNanos (f.utcNow.nanos + (d : ℤ)) = some t ∧ (takes → t.Whole ∧ effect)

/-- The generation is not the last the database can count to. -/
def Counts (m : MetadataRow) : Prop := m.generation + 1 < 2 ^ 63

/-! The rows that the `UPDATE`s of the leases match. -/

/-- The condition of `claim_archive`. -/
abbrev claimable (m : MetadataRow) (now : SqlTime) : Bool :=
  Cockroach.attemptDue m now &&
    (m.state = .hot || (m.state = .archiving && Cockroach.leaseOver m now))

/-- The condition of `claim_cleanup`. -/
abbrev cleanupClaimable (m : MetadataRow) (now : SqlTime) : Bool :=
  m.state = .archived && !m.hotDeleted && Cockroach.attemptDue m now &&
    (m.archiveOwnerExpiresAt.isNone || Cockroach.leaseOver m now)

/-- The condition of `defer_archive`. -/
abbrev archivable (m : MetadataRow) (session : ArchiveSession) (now : SqlTime) : Bool :=
  m.state = .archiving && Cockroach.heldBy m session now

/-- The condition of `defer_cleanup`. -/
abbrev deferrable (m : MetadataRow) (session : ArchiveSession) (now : SqlTime) : Bool :=
  m.state = .archived && !m.hotDeleted && Cockroach.heldBy m session now

/-- The calls that the two stores answer alike, by the state of the database before the call.  What
a change needs is asked only of the calls that make it. -/
def Covered {origin : DateTime} (f : Feed origin) (db : Db) : StoreRequest → Prop
  | .append b r => (rowOrNew db b).state = .hot →
      b.partitionKey = r.partitionKey ∧ r.eventTime.Whole ∧
        db.records.find? (RecordRow.new b r).key = none
  | .state _ => True
  | .beginArchive b =>
      ¬ ((rowOrNew db b).state = .archiving ∧ Cockroach.leaseOver (rowOrNew db b) f.sqlNow = true) ∧
        ((rowOrNew db b).state = .hot → (rowOrNew db b).archiveNextAttemptAt = none ∧
          Counts (rowOrNew db b) ∧ ∃ t, DateTime.fromSql (f.sqlNow + 300000000) = some t)
  | .claimArchive b d => LeaseRefused f d ∨
      LeaseFits f d (claimable (rowOrNew db b) f.sqlNow = true)
        ((db.metadata.find? (refOf b)).isSome ∧ Counts (rowOrNew db b))
  | .claimCleanup b d => LeaseRefused f d ∨
      LeaseFits f d (cleanupClaimable (rowOrNew db b) f.sqlNow = true) (Counts (rowOrNew db b))
  | .renewArchiveLease session d => LeaseRefused f d ∨ session.generation < 2 ^ 63 ∧
      LeaseFits f d (Cockroach.heldBy (rowOrNew db session.bucket) session f.sqlNow = true)
        ((rowOrNew db session.bucket).hotDeleted = false)
  | .deferArchive session d => LeaseRefused f d ∨ session.generation < 2 ^ 63 ∧
      LeaseFits f d (archivable (rowOrNew db session.bucket) session f.sqlNow = true)
        ((rowOrNew db session.bucket).archiveAttempts + 1 < 2 ^ 63)
  | .deferCleanup session d => LeaseRefused f d ∨ session.generation < 2 ^ 63 ∧
      LeaseFits f d (deferrable (rowOrNew db session.bucket) session f.sqlNow = true)
        ((rowOrNew db session.bucket).archiveAttempts + 1 < 2 ^ 63)
  | .snapshot session | .publishArchive session _ | .deleteHotBucket session
  | .abortArchive session => session.generation < 2 ^ 63
  | .discoverArchiveWork _ | .readRange .. => False

/-! ### The length of a lease -/

section Lease

variable {origin : DateTime} {f : Feed origin} {d : Duration}

/-- The times of `chrono` are far fewer than the readings of the monotonic clock. -/
theorem instant_of_utc (t origin : DateTime) {x : ℕ} (h : t.nanos = origin.nanos + (x : ℤ)) :
    x ≤ Instant.max := by
  have ht := t.nanos_bounds
  have ho := origin.nanos_bounds
  unfold Instant.max
  omega

theorem leaseDeadline_of_refused (h : LeaseRefused f d) :
    InMemory.leaseDeadline f.base d = .error .operationFailed := by
  rcases h with hd | hmax
  · exact if_pos hd
  · exact InMemory.leaseDeadline_eq_error (not_le.mpr hmax)

/-- The end of the lease, by the monotonic clock. -/
theorem nanos_leaseEnd {t : DateTime}
    (ht : DateTime.ofNanos (f.utcNow.nanos + (d : ℤ)) = some t) :
    t.nanos = origin.nanos + ((f.base + d : ℕ) : ℤ) := by
  rw [(DateTime.ofNanos_eq_some ht).1, f.same_base]
  push_cast
  ring

theorem archiveLeaseExpiry_of_refused (h : LeaseRefused f d) :
    Cockroach.archiveLeaseExpiry f.utcNow d = .error .operationFailed := by
  unfold Cockroach.archiveLeaseExpiry
  by_cases hd : d = 0
  · exact if_pos hd
  · have hmax := h.resolve_left hd
    -- no time of `chrono` is that late
    have hnone : DateTime.ofNanos (f.utcNow.nanos + (d : ℤ)) = none := by
      by_contra hne
      obtain ⟨t, ht⟩ := Option.ne_none_iff_exists'.mp hne
      exact absurd (instant_of_utc t origin (nanos_leaseEnd ht)) (not_le.mpr hmax)
    rw [if_neg hd, hnone]

/-- Both stores refuse the length, or both have its end. -/
theorem lease_cases {t : DateTime} (ht : DateTime.ofNanos (f.utcNow.nanos + (d : ℤ)) = some t) :
    LeaseRefused f d ∨ InMemory.leaseDeadline f.base d = .ok (f.base + d) ∧
      Cockroach.archiveLeaseExpiry f.utcNow d = .ok t.toSql := by
  by_cases hd : d = 0
  · exact .inl (.inl hd)
  · refine .inr ⟨InMemory.leaseDeadline_eq_ok hd (instant_of_utc t origin (nanos_leaseEnd ht)), ?_⟩
    unfold Cockroach.archiveLeaseExpiry
    rw [if_neg hd, ht]

/-- The end of a lease that is granted is the same time in both stores, and decodes. -/
theorem sameTime_leaseEnd {t : DateTime} (hwhole : t.Whole)
    (ht : DateTime.ofNanos (f.utcNow.nanos + (d : ℤ)) = some t) :
    SameTime origin (f.base + d) t.toSql ∧ ∃ u, DateTime.fromSql t.toSql = some u := by
  refine ⟨?_, t, hwhole.fromSql_toSql⟩
  rw [SameTime, ← nanos_leaseEnd ht]
  exact hwhole.toSql_eq.2

end Lease

/-! ### One call -/

section Call

variable {origin : DateTime} {table : TableId} {strategy : BucketStrategy} {s s' : Store}
  {db db' : Db} {f : Feed origin} {b : BucketId} {session : ArchiveSession}

/-- Both stores answer the call alike and stay paired. -/
abbrev CallAlike (table : TableId) (strategy : BucketStrategy) (f : Feed origin) (q : StoreRequest)
    (s : Store) (db : Db) : Prop :=
  Machine.Alike (Paired origin table strategy) (memory origin) (cockroach origin) ⟨f, q⟩ s db

/-- The result of an operation in memory is that of its transaction, and the stores stay paired. -/
inductive Agrees {α : Type} (origin : DateTime) (table : TableId) (strategy : BucketStrategy)
    (db : Db) : Except DurableBucketStoreError α × Store → Except DurableBucketStoreError (α × Db) →
      Prop where
  | ok {v : α} {s' : Store} {db' : Db} (h : Paired origin table strategy s' db') :
      Agrees origin table strategy db (.ok v, s') (.ok (v, db'))
  | error {e : DurableBucketStoreError} {s' : Store} (h : Paired origin table strategy s' db) :
      Agrees origin table strategy db (.error e, s') (.error e)

theorem alike_of_agrees {q : StoreRequest}
    (h : Agrees origin table strategy db (InMemory.exec (f.memory q) q s)
      (Cockroach.body f.cockroach q db)) : CallAlike table strategy f q s db := by
  have hs : memory origin ⟨f, q⟩ s = InMemory.exec (f.memory q) q s := rfl
  have hdb : cockroach origin ⟨f, q⟩ db = Cockroach.exec f.cockroach q db := rfl
  unfold Cockroach.exec at hdb
  generalize InMemory.exec (f.memory q) q s = x at h hs
  generalize Cockroach.body f.cockroach q db = y at h hdb
  cases h with
  | ok h => exact ⟨by rw [hs, hdb], by rw [hs, hdb]; exact h⟩
  | error h => exact ⟨by rw [hs, hdb], by rw [hs, hdb]; exact h⟩

theorem alike_of_eq {q : StoreRequest} {x : q.Reply × Store}
    {y : Except DurableBucketStoreError (q.Value × Db)} (hs : InMemory.exec (f.memory q) q s = x)
    (hdb : Cockroach.body f.cockroach q db = y) (h : Agrees origin table strategy db x y) :
    CallAlike table strategy f q s db :=
  alike_of_agrees (by rw [hs, hdb]; exact h)

/-- The database computes an argument first. -/
theorem agrees_bind {α β : Type} {x : Except DurableBucketStoreError β}
    {g : β → Except DurableBucketStoreError (α × Db)} {a : β}
    {r : Except DurableBucketStoreError α × Store} (hx : x = .ok a)
    (h : Agrees origin table strategy db r (g a)) :
    Agrees origin table strategy db r (x >>= g) := by
  rw [hx]
  exact h

/-- Both stores compute the end of a lease first; if they take it, it is the same for a call that
takes effect. -/
theorem agrees_lease {α : Type} {d : Duration} {takes effect : Prop}
    {op : Instant → Except DurableBucketStoreError α × Store}
    {g : SqlTime → Except DurableBucketStoreError (α × Db)}
    (hfits : LeaseRefused f d ∨ LeaseFits f d takes effect)
    (hpaired : Paired origin table strategy s db)
    (h : ∀ m, (takes → (SameTime origin (f.base + d) m ∧ ∃ u, DateTime.fromSql m = some u)
      ∧ effect) →
      Agrees origin table strategy db (op (f.base + d)) (g m)) :
    Agrees origin table strategy db
      (match InMemory.leaseDeadline f.base d with
        | .error e => (.error e, s)
        | .ok x => op x)
      (Cockroach.archiveLeaseExpiry f.utcNow d >>= g) := by
  have hcases : LeaseRefused f d ∨ ∃ m, InMemory.leaseDeadline f.base d = .ok (f.base + d) ∧
      Cockroach.archiveLeaseExpiry f.utcNow d = .ok m ∧
      (takes → (SameTime origin (f.base + d) m ∧ ∃ u, DateTime.fromSql m = some u) ∧ effect) := by
    rcases hfits with hrefused | ⟨t, ht, heffect⟩
    · exact .inl hrefused
    · exact (lease_cases ht).imp_right fun ⟨hs, hdb⟩ => ⟨t.toSql, hs, hdb, fun htakes =>
        ⟨sameTime_leaseEnd (heffect htakes).1 ht, (heffect htakes).2⟩⟩
  rcases hcases with hrefused | ⟨m, hs, hdb, hsame⟩
  · rw [leaseDeadline_of_refused hrefused, archiveLeaseExpiry_of_refused hrefused]
    exact .error hpaired
  · rw [hs, hdb]
    exact h m hsame

theorem sessionGeneration_eq (h : session.generation < 2 ^ 63) :
    Cockroach.sessionGeneration session = .ok session.generation := if_pos h

/-- The database looks at the generation of the session before the lease. -/
theorem agrees_session_lease {α : Type} {d : Duration} {takes effect : Prop}
    {op : Instant → Except DurableBucketStoreError α × Store}
    {g : SqlTime → Except DurableBucketStoreError (α × Db)}
    (hfits : LeaseRefused f d ∨ session.generation < 2 ^ 63 ∧ LeaseFits f d takes effect)
    (hpaired : Paired origin table strategy s db)
    (h : ∀ m, (takes → (SameTime origin (f.base + d) m ∧ ∃ u, DateTime.fromSql m = some u)
      ∧ effect) →
      Agrees origin table strategy db (op (f.base + d)) (g m)) :
    Agrees origin table strategy db
      (match InMemory.leaseDeadline f.base d with
        | .error e => (.error e, s)
        | .ok x => op x)
      (Cockroach.sessionGeneration session >>= fun _ =>
        Cockroach.archiveLeaseExpiry f.utcNow d >>= g) := by
  by_cases hg : session.generation < 2 ^ 63
  · exact agrees_bind (sessionGeneration_eq hg) (agrees_lease (hfits.imp_right And.right) hpaired h)
  · have hrefused := hfits.resolve_right fun hfits => hg hfits.1
    have hfails : Cockroach.sessionGeneration session = .error .operationFailed := if_neg hg
    rw [leaseDeadline_of_refused hrefused, hfails]
    exact .error hpaired

theorem heldBy_new (b : BucketId) (session : ArchiveSession) (now : SqlTime) :
    Cockroach.heldBy (.new b) session now = false := by
  simp [Cockroach.heldBy, MetadataRow.new]

theorem not_held_default (session : ArchiveSession) (now : Instant) :
    ¬ Entry.default.Held session now := fun h => by cases h.token

theorem lookup_of_ne_default (s : Store) (b : BucketId) (h : orDefault s b ≠ .default) :
    s.lookup b = some (orDefault s b) := by
  unfold orDefault at h ⊢
  cases hl : s.lookup b with
  | none => rw [hl] at h; exact absurd rfl h
  | some e => rfl

theorem find?_of_ne_new (db : Db) (b : BucketId) (h : rowOrNew db b ≠ .new b) :
    db.metadata.find? (refOf b) = some (rowOrNew db b) := by
  unfold rowOrNew at h ⊢
  cases hk : db.metadata.find? (refOf b) with
  | none => rw [hk] at h; exact absurd rfl h
  | some m => rfl

/-- The `UPDATE` of an operation on a session, on the row of its bucket. -/
theorem updateOwned_of_true (p : MetadataRow → Bool) (set : MetadataRow → MetadataRow)
    (keeps : ∀ m, (set m).ref = m.ref) (hp : p (rowOrNew db session.bucket) = true)
    (hnew : p (.new session.bucket) = false) (hc : (set (rowOrNew db session.bucket)).Check) :
    ∃ db', Cockroach.updateOwned db session p set keeps = .ok ((), db') ∧
      SetsRow db (refOf session.bucket) (set (rowOrNew db session.bucket)) db' ∧
      db'.records = db.records := by
  have hk := find?_of_ne_new db session.bucket fun e => by
    rw [e, hnew] at hp; cases hp
  obtain ⟨db', hdb'⟩ := Db.updateMetadata_of_match keeps hk hp hc
  have hok : Cockroach.updateOwned db session p set keeps = .ok ((), db') := by
    unfold Cockroach.updateOwned
    rw [hdb']
    rfl
  obtain ⟨m, hm, -, hset, hr⟩ := Cockroach.updateOwned_ok hok
  cases hk.symm.trans hm
  exact ⟨db', hok, hset, hr⟩

theorem updateOwned_of_false {p : MetadataRow → Bool} {set : MetadataRow → MetadataRow}
    {keeps : ∀ m, (set m).ref = m.ref} (hp : p (rowOrNew db session.bucket) = false) :
    Cockroach.updateOwned db session p set keeps = .error .staleArchiveSession := by
  have hnone : ∀ m, db.metadata.find? (refOf session.bucket) = some m → p m = false := by
    intro m hm
    rw [rowOrNew, hm] at hp
    exact hp
  unfold Cockroach.updateOwned
  rw [Db.updateMetadata_of_no_match hnone]
  rfl

/-- **An operation on a session** that checks and changes the entry as its `UPDATE` does the row. -/
theorem session_agrees {check : Entry → Except DurableBucketStoreError Unit} {P : Entry → Prop}
    {change : Entry → Entry} {p : MetadataRow → Bool} {set : MetadataRow → MetadataRow}
    {keeps : ∀ m, (set m).ref = m.ref} (h : Paired origin table strategy s db)
    (hb : Scope table strategy session.bucket)
    (hcheck : ∀ e, (check e = .ok () ∧ P e) ∨ check e = .error .staleArchiveSession)
    (hok : ∀ e, P e → check e = .ok ()) (hdefault : ¬ P .default)
    (hnew : p (.new session.bucket) = false)
    (hiff : P (orDefault s session.bucket) ↔ p (rowOrNew db session.bucket) = true)
    (hrecords : ∀ e, (change e).records = e.records)
    (hchange : P (orDefault s session.bucket) →
      Changes origin (rowOrNew db session.bucket) (change (orDefault s session.bucket))
        (set (rowOrNew db session.bucket))) :
    Agrees origin table strategy db
      (InMemory.withSession session (fun e => do check e; return ((), change e)) s)
      (Cockroach.updateOwned db session p set keeps) := by
  by_cases hP : P (orDefault s session.bucket)
  · have hl := lookup_of_ne_default s session.bucket fun e => hdefault (e ▸ hP)
    have hmem : InMemory.withSession session (fun e => do check e; return ((), change e)) s =
        (.ok (), s.insert session.bucket (change (orDefault s session.bucket))) :=
      InMemory.withSession_eq_ok hl (bind_of_ok (hok _ hP) rfl)
    obtain ⟨db', hdb, hset, hr⟩ := updateOwned_of_true p set keeps (hiff.mp hP) hnew
      (hchange hP).check
    rw [hmem, hdb]
    exact .ok (h.setRouting hb hset (hchange hP) hr (hrecords _))
  · have hp : p (rowOrNew db session.bucket) = false := by
      rw [← Bool.not_eq_true, ← hiff]
      exact hP
    rw [updateOwned_of_false hp]
    rcases InMemory.withSession_check session (fun e => ((), change e)) s hcheck with hw | ⟨hP', -⟩
    · rw [hw]
      exact .error h
    · exact absurd hP' hP

/-- The condition of the operations on a bucket that is being archived. -/
theorem archiving_held_iff {e : Entry} {m : MetadataRow} (h : SameRouting origin e m)
    (session : ArchiveSession) :
    e.state = .archiving ∧ e.Held session f.now ↔
      (m.state = .archiving && Cockroach.heldBy m session f.sqlNow) = true := by
  rw [h.state_archiving_iff, h.held_iff f.same_now, Bool.and_eq_true, decide_eq_true_eq]

theorem publish_alike {key : String} (h : Paired origin table strategy s db)
    (hb : Scope table strategy session.bucket) (hg : session.generation < 2 ^ 63) :
    CallAlike table strategy f (.publishArchive session key) s db := by
  have hrel := (h.related _ hb).toSameRouting
  have hc := check_rowOrNew hb db
  refine alike_of_agrees (agrees_bind (sessionGeneration_eq hg) (session_agrees h hb
    (fun e => InMemory.validateArchiveSession_cases e session .archiving f.now)
    (fun e hP => hP.2.validateArchive hP.1) (fun hP => not_held_default _ _ hP.2)
    (by simp [heldBy_new]) (archiving_held_iff hrel session) (fun _ => rfl) fun hP => ?_))
  have hst := hrel.state_archiving_iff.mp hP.1
  refine ⟨⟨hc.1, .inr (.inr ⟨rfl, (Cockroach.owner_of_archiving hc hst).1, by simp⟩), hc.2.2⟩,
    ⟨⟨rfl, rfl, rfl⟩, hrel.generation, hrel.token, hrel.expiry, hrel.retry⟩, rfl, h.lease _ hb, ?_⟩
  nofun

theorem abort_alike (h : Paired origin table strategy s db)
    (hb : Scope table strategy session.bucket) (hg : session.generation < 2 ^ 63) :
    CallAlike table strategy f (.abortArchive session) s db := by
  have hrel := (h.related _ hb).toSameRouting
  have hc := check_rowOrNew hb db
  refine alike_of_agrees (agrees_bind (sessionGeneration_eq hg) (session_agrees h hb
    (fun e => InMemory.validateArchiveSession_cases e session .archiving f.now)
    (fun e hP => hP.2.validateArchive hP.1) (fun hP => not_held_default _ _ hP.2)
    (by simp [heldBy_new]) (archiving_held_iff hrel session) (fun _ => rfl) fun hP => ?_))
  -- the row has no retry time to keep
  have hretry := hrel.retry
  rw [h.retry _ hb hP.1] at hretry
  refine ⟨⟨hc.1, .inl ⟨rfl, rfl, rfl, rfl, rfl⟩, hc.2.2⟩,
    ⟨rfl, hrel.generation, rfl, .none, hretry⟩,
    rfl, (fun t ht => by cases ht), ?_⟩
  nofun

theorem deferArchive_alike {d : Duration} (h : Paired origin table strategy s db)
    (hb : Scope table strategy session.bucket) (hcovered : Covered f db (.deferArchive session d)) :
    CallAlike table strategy f (.deferArchive session d) s db := by
  have hrel := (h.related _ hb).toSameRouting
  have hc := check_rowOrNew hb db
  refine alike_of_agrees (agrees_session_lease hcovered h fun m heffect => session_agrees h hb
    (fun e => InMemory.validateArchiveSession_cases e session .archiving f.now)
    (fun e hP => hP.2.validateArchive hP.1) (fun hP => not_held_default _ _ hP.2)
    (by simp [heldBy_new]) (archiving_held_iff hrel session) (fun _ => rfl) fun hP => ?_)
  obtain ⟨⟨hsame, -⟩, ha⟩ := heffect ((archiving_held_iff hrel session).mp hP)
  refine ⟨⟨hc.1, .inl ⟨rfl, rfl, rfl, rfl, rfl⟩, hc.2.2.1, ha⟩,
    ⟨rfl, hrel.generation, rfl, .none, .some hsame⟩, rfl, (fun t ht => by cases ht), ?_⟩
  nofun

theorem cleanup_held_iff {e : Entry} {m : MetadataRow} (h : SameRouting origin e m)
    (session : ArchiveSession) :
    (∃ key, e.state = .archived key false) ∧ e.Held session f.now ↔
      (m.state = .archived && !m.hotDeleted && Cockroach.heldBy m session f.sqlNow) = true := by
  rw [← InMemory.cleanupPending_iff, h.cleanup_iff, h.held_iff f.same_now]
  simp

theorem deferCleanup_alike {d : Duration} (h : Paired origin table strategy s db)
    (hb : Scope table strategy session.bucket) (hcovered : Covered f db (.deferCleanup session d)) :
    CallAlike table strategy f (.deferCleanup session d) s db := by
  have hrel := (h.related _ hb).toSameRouting
  have hc := check_rowOrNew hb db
  refine alike_of_agrees (agrees_session_lease hcovered h fun m heffect => session_agrees h hb
    (fun e => InMemory.validateCleanupSession_cases e session f.now)
    (fun e hP => hP.2.validateCleanup hP.1.choose_spec) (fun hP => not_held_default _ _ hP.2)
    (by simp [heldBy_new]) (cleanup_held_iff hrel session) (fun _ => rfl) fun hP => ?_)
  obtain ⟨⟨hsame, hdec⟩, ha⟩ := heffect ((cleanup_held_iff hrel session).mp hP)
  have hst := (hrel.cleanup_iff.mp (InMemory.cleanupPending_iff.mpr hP.1)).1
  have howner := Cockroach.owner_of_archived hc hst
  refine ⟨⟨hc.1, .inr (.inr ⟨hst, howner⟩), hc.2.2.1, ha⟩,
    ⟨hrel.state.congr rfl rfl rfl, hrel.generation, hrel.token, .some hsame, .some hsame⟩, rfl,
    (fun t ht => by cases ht; exact hdec), fun he => ?_⟩
  cases (hrel.state_archiving_iff.mp he).symm.trans hst

/-- A row that someone holds is being archived or is archived. -/
theorem state_of_heldBy {m : MetadataRow} {now : SqlTime} (hc : m.Check)
    (h : Cockroach.heldBy m session now = true) : m.state = .archiving ∨ m.state = .archived := by
  simp only [Cockroach.heldBy, Bool.and_eq_true, decide_eq_true_eq] at h
  rcases hc.2.1 with hi | hi | hi
  · cases hi.2.1.symm.trans h.1.2
  · exact .inl hi.1
  · exact .inr hi.1

theorem renew_alike {d : Duration} (h : Paired origin table strategy s db)
    (hb : Scope table strategy session.bucket)
    (hcovered : Covered f db (.renewArchiveLease session d)) :
    CallAlike table strategy f (.renewArchiveLease session d) s db := by
  have hrel := (h.related _ hb).toSameRouting
  have hc := check_rowOrNew hb db
  refine alike_of_agrees (agrees_session_lease hcovered h fun m heffect => session_agrees h hb
    (fun e => InMemory.validateActiveSession_cases e session f.now)
    (fun e hP => hP.validate) (not_held_default _ _)
    (by simp [heldBy_new]) ?_ (fun _ => rfl) fun hP => ?_)
  · rw [hrel.held_iff f.same_now]
    refine ⟨fun hheld => ?_, fun hp => (Bool.and_eq_true_iff.mp hp).1⟩
    rcases state_of_heldBy hc hheld with hst | hst
    · simp [hheld, hst]
    · simp [hheld, hst, (heffect hheld).2]
  · have hheld := (hrel.held_iff f.same_now session).mp hP
    obtain ⟨⟨hsame, hdec⟩, -⟩ := heffect hheld
    refine ⟨⟨hc.1, ?_, hc.2.2⟩,
      ⟨hrel.state.congr rfl rfl rfl, hrel.generation, hrel.token, .some hsame, hrel.retry⟩, rfl,
      (fun t ht => by cases ht; exact hdec), h.retry _ hb⟩
    rcases state_of_heldBy hc hheld with hst | hst
    · obtain ⟨htok, hkey, hnot⟩ := Cockroach.owner_of_archiving hc hst
      exact .inr (.inl ⟨hst, htok, by simp, hkey, hnot⟩)
    · have howner := Cockroach.owner_of_archived hc hst
      exact .inr (.inr ⟨hst, howner⟩)

theorem snapshot_alike (h : Paired origin table strategy s db)
    (hb : Scope table strategy session.bucket) (hg : session.generation < 2 ^ 63) :
    CallAlike table strategy f (.snapshot session) s db := by
  have hbucket := h.related _ hb
  have hiff := archiving_held_iff (f := f) hbucket.toSameRouting session
  by_cases hP : (orDefault s session.bucket).state = .archiving ∧
      (orDefault s session.bucket).Held session f.now
  · have hl := lookup_of_ne_default s session.bucket
      fun e => not_held_default session f.now (e ▸ hP.2)
    have hs : InMemory.snapshot (f.memory (.snapshot session)) session s =
        (.ok (orDefault s session.bucket).records,
          s.insert session.bucket (orDefault s session.bucket)) :=
      InMemory.withSession_eq_ok hl (bind_of_ok (hP.2.validateArchive hP.1) rfl)
    have hk := find?_of_ne_new db session.bucket fun e => by
      have hp := hiff.mp hP
      rw [e] at hp
      simp [heldBy_new] at hp
    have hdb : Cockroach.snapshot f.cockroach session db =
        .ok ((orDefault s session.bucket).records, db) := by
      refine bind_of_ok (sessionGeneration_eq hg) ?_
      simp only [hk, Feed.cockroach_now, if_pos (hiff.mp hP), hbucket.records]
      rfl
    exact alike_of_eq hs hdb (.ok (h.same (InMemory.orDefault_insert_self s session.bucket)))
  · have hs : InMemory.snapshot (f.memory (.snapshot session)) session s =
        (.error .staleArchiveSession, s) := by
      rcases InMemory.withSession_check session (fun e : Entry => (e.records, e)) s
        (fun e => InMemory.validateArchiveSession_cases e session .archiving f.now)
        with hw | ⟨hP', -⟩
      · exact hw
      · exact absurd hP' hP
    have hdb : Cockroach.snapshot f.cockroach session db = .error .staleArchiveSession := by
      refine bind_of_ok (sessionGeneration_eq hg) ?_
      cases hk : db.metadata.find? (refOf session.bucket) with
      | none => rfl
      | some m =>
          have hrow : rowOrNew db session.bucket = m := by rw [rowOrNew, hk]; rfl
          rw [hrow] at hiff
          exact if_neg (mt hiff.mpr hP)
    exact alike_of_eq hs hdb (.error h)

theorem deleteHotBucket_of_cleanable (env : Cockroach.Env) (hg : session.generation < 2 ^ 63)
    (hp : Cockroach.cleanable (rowOrNew db session.bucket) session env.now = true)
    (hc : ({ rowOrNew db session.bucket with hotDeleted := true } : MetadataRow).Check) :
    ∃ db', Cockroach.deleteHotBucket env session db = .ok ((), db') := by
  -- the update looks at the metadata, which the deletion of the records leaves
  have hupdate : ∀ db₁ : Db, db₁.metadata = db.metadata → ∃ db', Cockroach.updateOwned db₁ session
      (fun m => Cockroach.cleanable m session env.now) (fun m => { m with hotDeleted := true })
      (fun _ => rfl) = .ok ((), db') := by
    intro db₁ hmeta
    have hrow : rowOrNew db₁ session.bucket = rowOrNew db session.bucket := by
      rw [rowOrNew, hmeta]
      rfl
    rw [← hrow] at hp hc
    obtain ⟨db', h, -⟩ := updateOwned_of_true
      (fun m => Cockroach.cleanable m session env.now) (fun m => { m with hotDeleted := true })
      (fun _ => rfl) hp (by simp [Cockroach.cleanable, heldBy_new]) hc
    exact ⟨db', h⟩
  obtain ⟨db', h⟩ := hupdate (db.deleteRecords _) rfl
  exact ⟨db', bind_of_ok (sessionGeneration_eq hg) h⟩

theorem deleteHotBucket_refused {env : InMemory.Env}
    (h : ¬ ((∃ key, (orDefault s session.bucket).state = .archived key false) ∧
      (orDefault s session.bucket).Held session env.first)) :
    InMemory.deleteHotBucket env session s = (.error .staleArchiveSession, s) := by
  have heff := InMemory.deleteHotBucket_effect env session s
  generalize InMemory.deleteHotBucket env session s = x at heff ⊢
  obtain ⟨r, s'⟩ := x
  cases heff with
  | look hq => cases hq
  | refused _ he =>
      rcases he with rfl | ⟨-, d, hd, -⟩
      · rfl
      · cases hd
  | deleteHot hst hheld => exact absurd ⟨⟨_, hst⟩, hheld⟩ h

theorem deleteHot_alike (h : Paired origin table strategy s db)
    (hb : Scope table strategy session.bucket) (hg : session.generation < 2 ^ 63) :
    CallAlike table strategy f (.deleteHotBucket session) s db := by
  have hrel := (h.related _ hb).toSameRouting
  have hc := check_rowOrNew hb db
  have hiff : (∃ key, (orDefault s session.bucket).state = .archived key false) ∧
      (orDefault s session.bucket).Held session f.now ↔
        Cockroach.cleanable (rowOrNew db session.bucket) session f.sqlNow = true := by
    rw [cleanup_held_iff hrel, Cockroach.cleanable]
    simp only [Bool.and_eq_true]
    tauto
  by_cases hP : (∃ key, (orDefault s session.bucket).state = .archived key false) ∧
      (orDefault s session.bucket).Held session f.now
  · obtain ⟨⟨key, hkey⟩, hheld⟩ := id hP
    have hl := lookup_of_ne_default s session.bucket
      fun e => not_held_default session f.now (e ▸ hheld)
    have hs : InMemory.deleteHotBucket (f.memory (.deleteHotBucket session)) session s =
        (.ok (), s.insert session.bucket
          { orDefault s session.bucket with records := [], state := .archived key true }) :=
      InMemory.withSession_eq_ok hl (by rw [hkey]; exact bind_of_ok hheld.validate rfl)
    have hst := hrel.state
    rw [hkey] at hst
    have howner := Cockroach.owner_of_archived hc hst.1
    have hcheck : ({ rowOrNew db session.bucket with hotDeleted := true } : MetadataRow).Check :=
      ⟨hc.1, .inr (.inr ⟨hst.1, howner⟩), hc.2.2⟩
    obtain ⟨db', hdb⟩ := deleteHotBucket_of_cleanable f.cockroach hg (hiff.mp hP) hcheck
    refine alike_of_eq hs hdb (.ok ?_)
    cases Cockroach.deleteHotBucket_effect hdb with
    | look _ _ hq => cases hq _ rfl
    | @deleteHot _ m _ hk _ _ hset hr =>
        obtain rfl : rowOrNew db session.bucket = m := by rw [rowOrNew, hk]; rfl
        refine h.set hb hset ⟨hcheck, ⟨⟨hst.1, hst.2.1, rfl⟩, hrel.generation, hrel.token,
          hrel.expiry, hrel.retry⟩, rfl, h.lease _ hb, fun e => by cases e⟩ (fun k hne => ?_) ?_
        · rw [Cockroach.rowsOf_delete hr, if_neg (Ne.symm hne)]
        · rw [Cockroach.rowsOf_delete hr, if_pos rfl]
          rfl
  · have hs : InMemory.deleteHotBucket (f.memory (.deleteHotBucket session)) session s =
        (.error .staleArchiveSession, s) := deleteHotBucket_refused hP
    have hdb : Cockroach.deleteHotBucket f.cockroach session db = .error .staleArchiveSession := by
      refine bind_of_ok (sessionGeneration_eq hg) (updateOwned_of_false ?_)
      rw [← Bool.not_eq_true]
      exact mt hiff.mpr hP
    exact alike_of_eq hs hdb (.error h)

/-- The `UPDATE` of a claim, on the row of its bucket. -/
theorem updateMetadata_of_true (p : MetadataRow → Bool) (set : MetadataRow → MetadataRow)
    (keeps : ∀ m, (set m).ref = m.ref) (hk : db.metadata.find? (refOf b) = some (rowOrNew db b))
    (hp : p (rowOrNew db b) = true) (hc : (set (rowOrNew db b)).Check) :
    ∃ db', db.updateMetadata (refOf b) p set keeps = .ok (some (set (rowOrNew db b)), db') ∧
      SetsRow db (refOf b) (set (rowOrNew db b)) db' ∧ db'.records = db.records := by
  obtain ⟨db', hdb'⟩ := Db.updateMetadata_of_match keeps hk hp hc
  rcases Db.updateMetadata_ok hdb' with ⟨hn, -⟩ | ⟨m, hm, -, -, hc, hr, hfind, -⟩
  · cases hn
  · cases hk.symm.trans hm
    exact ⟨db', hdb', ⟨hc, hfind⟩, hr⟩

theorem updateMetadata_of_false {p : MetadataRow → Bool} {set : MetadataRow → MetadataRow}
    {keeps : ∀ m, (set m).ref = m.ref} (hp : p (rowOrNew db b) = false) :
    db.updateMetadata (refOf b) p set keeps = .ok (none, db) := by
  refine Db.updateMetadata_of_no_match fun m hm => ?_
  rw [rowOrNew, hm] at hp
  exact hp

theorem nextGeneration_eq {e : Entry} {m : MetadataRow} (h : SameRouting origin e m)
    (hg : Counts m) :
    nextGeneration e.generation = some (m.generation + 1) := by
  unfold Counts at hg
  rw [nextGeneration, ← h.generation, if_pos (by omega)]

/-- **A claim** that takes the entry exactly when its `UPDATE` takes the row. -/
theorem claim_agrees {x : Except DurableBucketStoreError (Option ArchiveSession) × Store} {P : Prop}
    {p : MetadataRow → Bool} {set : MetadataRow → MetadataRow} {keeps : ∀ m, (set m).ref = m.ref}
    (h : Paired origin table strategy s db) (hb : Scope table strategy b)
    (hiff : P ↔ p (rowOrNew db b) = true)
    (hfound : P → db.metadata.find? (refOf b) = some (rowOrNew db b))
    (hgen : (set (rowOrNew db b)).generation = (rowOrNew db b).generation + 1)
    (hyes : P → ∃ e', x = (.ok (some ⟨b, f.token, (rowOrNew db b).generation + 1⟩), s.insert b e') ∧
      e'.records = (orDefault s b).records ∧
      Changes origin (rowOrNew db b) e' (set (rowOrNew db b)))
    (hno : ¬ P → ∃ s', x = (.ok none, s') ∧ ∀ b', orDefault s' b' = orDefault s b') :
    Agrees origin table strategy db x (do
      let (row, db) ← db.updateMetadata (refOf b) p set keeps
      return (row.map fun m => (⟨b, f.cockroach.token, m.generation⟩ : ArchiveSession), db)) := by
  by_cases hP : P
  · obtain ⟨e', rfl, hrecords, hchange⟩ := hyes hP
    obtain ⟨db', hdb, hset, hr⟩ := updateMetadata_of_true p set keeps (hfound hP) (hiff.mp hP)
      hchange.check
    have hpaired := h.setRouting hb hset hchange hr hrecords
    rw [← hgen]
    exact agrees_bind hdb (.ok hpaired)
  · obtain ⟨s', rfl, hsame⟩ := hno hP
    refine agrees_bind (updateMetadata_of_false ?_) (.ok (h.same hsame))
    rw [← Bool.not_eq_true]
    exact mt hiff.mpr hP

theorem claimCleanup_alike {d : Duration} (h : Paired origin table strategy s db)
    (hb : Scope table strategy b) (hcovered : Covered f db (.claimCleanup b d)) :
    CallAlike table strategy f (.claimCleanup b d) s db := by
  have hrel := (h.related _ hb).toSameRouting
  have hc := check_rowOrNew hb db
  have hiff : (InMemory.cleanupPending (orDefault s b).state = true ∧
      InMemory.attemptDue (orDefault s b) f.now = true ∧
        InMemory.leaseExpired (orDefault s b) f.now = true) ↔
      cleanupClaimable (rowOrNew db b) f.sqlNow = true := by
    rw [hrel.cleanup_iff, hrel.due_iff f.same_now, hrel.expired_iff f.same_now]
    simp [and_assoc]
  refine alike_of_agrees (agrees_lease hcovered h fun t heffect =>
    claim_agrees h hb hiff ?_ rfl ?_ ?_)
  · intro hP
    refine find?_of_ne_new db b fun e => ?_
    have hst := hrel.cleanup_iff.mp hP.1
    rw [e] at hst
    cases hst.1
  · intro hP
    have hl := lookup_of_ne_default s b fun e => by
      rw [e] at hP
      cases hP.1
    have hst := hrel.cleanup_iff.mp hP.1
    have howner := Cockroach.owner_of_archived hc hst.1
    obtain ⟨⟨hsame, hdec⟩, hg⟩ := heffect (hiff.mp hP)
    refine ⟨{ orDefault s b with
        generation := (rowOrNew db b).generation + 1
        archiveOwnerToken := some f.token
        archiveOwnerExpiresAt := some (f.base + d)
        nextAttemptAt := none }, ?_, rfl, ?_⟩
    · rw [hl]
      refine (if_pos hP).trans ?_
      rw [nextGeneration_eq hrel hg]
      rfl
    · refine ⟨⟨hc.1, .inr (.inr ⟨hst.1, by simp, howner.2⟩), hg, hc.2.2.2⟩,
        ⟨hrel.state.congr rfl rfl rfl, rfl, rfl, .some hsame, .none⟩, rfl,
        (fun t ht => by cases ht; exact hdec), fun _ => rfl⟩
  · intro hP
    refine ⟨s, ?_, fun _ => rfl⟩
    cases hl : s.lookup b with
    | none => rfl
    | some e =>
        have he := InMemory.orDefault_of_lookup hl
        rw [he] at hP
        exact if_neg hP

theorem claimArchive_alike {d : Duration} (h : Paired origin table strategy s db)
    (hb : Scope table strategy b) (hcovered : Covered f db (.claimArchive b d)) :
    CallAlike table strategy f (.claimArchive b d) s db := by
  have hrel := (h.related _ hb).toSameRouting
  have hc := check_rowOrNew hb db
  have hiff : (InMemory.attemptDue (orDefault s b) f.now = true ∧ ((orDefault s b).state = .hot ∨
      ((orDefault s b).state = .archiving ∧
        InMemory.leaseExpired (orDefault s b) f.now = true))) ↔
      claimable (rowOrNew db b) f.sqlNow = true := by
    rw [hrel.due_iff f.same_now, hrel.state_hot_iff, hrel.state_archiving_iff]
    simp only [Bool.and_eq_true, Bool.or_eq_true, decide_eq_true_eq]
    refine and_congr_right fun _ => or_congr_right (and_congr_right fun hst => ?_)
    rw [hrel.over_iff f.same_now hc hst]
  refine alike_of_agrees (agrees_lease hcovered h fun t heffect =>
    claim_agrees h hb hiff ?_ rfl ?_ ?_)
  · intro hP
    obtain ⟨m, hm⟩ := Option.isSome_iff_exists.mp (heffect (hiff.mp hP)).2.1
    rw [rowOrNew, hm]
    rfl
  · intro hP
    obtain ⟨⟨hsame, hdec⟩, -, hg⟩ := heffect (hiff.mp hP)
    refine ⟨{ orDefault s b with
        state := .archiving
        generation := (rowOrNew db b).generation + 1
        archiveOwnerToken := some f.token
        archiveOwnerExpiresAt := some (f.base + d)
        nextAttemptAt := none }, ?_, rfl, ?_⟩
    · refine (if_pos hP).trans ?_
      rw [nextGeneration_eq hrel hg]
      rfl
    · exact ⟨⟨hc.1, .inr (.inl ⟨rfl, by simp, by simp, rfl, rfl⟩), hg, hc.2.2.2⟩,
        ⟨rfl, rfl, rfl, .some hsame, .none⟩, rfl, (fun t ht => by cases ht; exact hdec),
        fun _ => rfl⟩
  · intro hP
    exact ⟨s.insert b (orDefault s b), if_neg hP, InMemory.orDefault_insert_self s b⟩

theorem orDefault_state (s : Store) (b : BucketId) :
    ((s.lookup b).map Entry.state).getD .hot = (orDefault s b).state := by
  unfold orDefault
  cases s.lookup b <;> rfl

/-- The state that a row is decoded to, in a database that has the row. -/
theorem stateFromMetadata_eq {m : MetadataRow} {state : BucketState}
    (hk : db.metadata.find? (refOf b) = some m) (hm : Cockroach.metadataState m = .ok state) :
    Cockroach.stateFromMetadata db b = .ok (some state) := by
  unfold Cockroach.stateFromMetadata
  rw [hk]
  dsimp only
  rw [hm]
  rfl

theorem state_alike (h : Paired origin table strategy s db) (hb : Scope table strategy b) :
    CallAlike table strategy f (.state b) s db := by
  have hrel := (h.related _ hb).toSameRouting
  have hs : InMemory.state b s = (.ok (orDefault s b).state, s) := by
    rw [InMemory.state, orDefault_state]
  have hdb : Cockroach.state b db = .ok ((orDefault s b).state, db) := by
    cases hk : db.metadata.find? (refOf b) with
    | none =>
        have hrow : rowOrNew db b = .new b := by rw [rowOrNew, hk]; rfl
        have hhot : (orDefault s b).state = .hot := hrel.state_hot_iff.mpr (by rw [hrow]; rfl)
        rw [hhot]
        refine bind_of_ok (a := none) ?_ rfl
        unfold Cockroach.stateFromMetadata
        rw [hk]
    | some m =>
        have hrow : rowOrNew db b = m := by rw [rowOrNew, hk]; rfl
        subst hrow
        exact bind_of_ok (stateFromMetadata_eq hk
          (hrel.metadataState_eq (check_rowOrNew hb db) (h.lease b hb))) rfl
  exact alike_of_eq hs hdb (.ok h)

/-- The insert of a bucket's row succeeds, and leaves the row it has. -/
theorem exists_insertMetadata (hb : Scope table strategy b) (db : Db) :
    ∃ db₁, db.insertMetadata (.new b) = .ok db₁ ∧
      SetsRow db (refOf b) (rowOrNew db b) db₁ ∧ db₁.records = db.records ∧
      db₁.metadata.find? (refOf b) = some (rowOrNew db b) := by
  cases h : db.insertMetadata (.new b) with
  | error e => exact absurd (check_new hb) (Db.insertMetadata_error h).2
  | ok db₁ => exact ⟨db₁, rfl, Cockroach.insertMetadata_setsRow h⟩

/-- A reading that is the same time as a stored one which decodes is one of the clock's. -/
theorem SameTime.le_max {x : ℕ} {m : ℤ} {t : DateTime} (h : SameTime origin x m)
    (ht : DateTime.fromSql m = some t) : x ≤ Instant.max :=
  instant_of_utc t origin ((DateTime.fromSql_eq_some ht).1.trans h.symm)

/-- The lease of `begin_archive`, counted from the reading it compares with. -/
theorem beginLease_same : SameTime origin (f.now + InMemory.beginLease) (f.sqlNow + 300000000) := by
  have hnow := f.same_now
  unfold SameTime at hnow ⊢
  unfold InMemory.beginLease
  push_cast
  linarith

theorem beginArchive_alike (h : Paired origin table strategy s db) (hb : Scope table strategy b)
    (hover : ¬ ((rowOrNew db b).state = .archiving ∧
      Cockroach.leaseOver (rowOrNew db b) f.sqlNow = true))
    (hhot : (rowOrNew db b).state = .hot → (rowOrNew db b).archiveNextAttemptAt = none ∧
      Counts (rowOrNew db b) ∧ ∃ t, DateTime.fromSql (f.sqlNow + 300000000) = some t) :
    CallAlike table strategy f (.beginArchive b) s db := by
  have hrel := (h.related _ hb).toSameRouting
  have hc := check_rowOrNew hb db
  obtain ⟨db₁, hinsert, hset₁, hr₁, hk₁⟩ := exists_insertMetadata hb db
  have hrow₁ : rowOrNew db₁ b = rowOrNew db b := by rw [rowOrNew, hk₁]; rfl
  by_cases hst : (orDefault s b).state = .hot
  · have hst' := hrel.state_hot_iff.mp hst
    obtain ⟨hretry, hg, t, ht⟩ := hhot hst'
    have hsame := beginLease_same (f := f)
    have hmax : f.now + InMemory.beginLease ≤ Instant.max := hsame.le_max ht
    have hlease : InMemory.leaseDeadline f.now InMemory.beginLease =
        .ok (f.now + InMemory.beginLease) := InMemory.leaseDeadline_eq_ok (by decide) hmax
    have hs : InMemory.beginArchive (f.memory (.beginArchive b)) b s =
        (.ok ⟨b, f.token, (rowOrNew db b).generation + 1⟩, s.insert b
          { (orDefault s b).fence f.token ((rowOrNew db b).generation + 1) with
            archiveOwnerExpiresAt := some (f.now + InMemory.beginLease)
            nextAttemptAt := none }) :=
      InMemory.beginArchive_eq_ok hst (nextGeneration_eq hrel hg) hlease
    obtain ⟨db₂, hdb⟩ : ∃ db₂, Cockroach.beginArchive f.cockroach b db =
        .ok (⟨b, f.token, (rowOrNew db b).generation + 1⟩, db₂) := by
      obtain ⟨db₂, hupdate, -⟩ := updateMetadata_of_true
        (fun m => m.state = .hot || (m.state = .archiving && Cockroach.leaseOver m f.sqlNow))
        (fun m =>
          { m with
            state := .archiving
            generation := m.generation + 1
            archiveOwnerToken := some f.token
            archiveOwnerExpiresAt := some (f.sqlNow + 300000000)
            archiveObjectKey := none
            hotDeleted := false })
        (fun _ => rfl) (hk₁.trans (congrArg some hrow₁.symm)) (by simp [hrow₁, hst'])
        (by rw [hrow₁]; exact ⟨hc.1, .inr (.inl ⟨rfl, by simp, by simp, rfl, rfl⟩), hg, hc.2.2.2⟩)
      rw [hrow₁] at hupdate
      exact ⟨db₂, bind_of_ok hinsert (bind_of_ok hupdate rfl)⟩
    refine alike_of_eq hs hdb (.ok ?_)
    cases Cockroach.beginArchive_effect hdb with
    | look _ hi _ => cases hi
    | beginArchive _ hset hr =>
        refine h.setRouting hb hset ⟨hset.check, ⟨rfl, rfl, rfl, .some hsame, ?_⟩, rfl,
          (fun _ he => by cases he; exact ⟨t, ht⟩), fun _ => rfl⟩ hr rfl
        change Option.Rel _ none (rowOrNew db b).archiveNextAttemptAt
        rw [hretry]
        exact .none
  · have hs : InMemory.beginArchive (f.memory (.beginArchive b)) b s =
        (.error (.archiveNotAllowed (orDefault s b).state), s.insert b (orDefault s b)) :=
          if_pos hst
    have hdb : Cockroach.beginArchive f.cockroach b db =
        .error (.archiveNotAllowed (orDefault s b).state) := by
      refine bind_of_ok hinsert (bind_of_ok (updateMetadata_of_false ?_) ?_)
      · rw [hrow₁, ← Bool.not_eq_true]
        rw [hrel.state_hot_iff] at hst
        simpa [hst] using hover
      · exact bind_of_ok (stateFromMetadata_eq hk₁ (hrel.metadataState_eq hc (h.lease b hb))) rfl
    exact alike_of_eq hs hdb (.error (h.same (InMemory.orDefault_insert_self s b)))

/-! ### Appends -/

/-- A whole event time comes back. -/
theorem decode_new {r : Record} (hw : r.eventTime.Whole) :
    (RecordRow.new b r).decode = some r := by
  unfold RecordRow.decode RecordRow.new
  rw [show DateTime.fromSql r.eventTime.toSql = some r.eventTime from hw.fromSql_toSql]
  rfl

/-- The rows of a bucket with one more decode to its records with one more. -/
theorem decodeRows_append {rs : List Record} {r : Record} {k : Cockroach.BucketRef}
    {row : RecordRow}
    (h : decodeRows (sortRows (rowsOf db k)) = .ok rs) (hrow : row.decode = some r)
    (hrows : rowsOf db' k = rowsOf db k ++ [row]) :
    decodeRows (sortRows (rowsOf db' k)) = .ok (sortByKey (rs ++ [r])) := by
  have hmap : (sortRows (rowsOf db k)).mapM RecordRow.decode = some rs := by
    unfold decodeRows at h
    split at h
    · cases h
    · rename_i heq
      cases h
      exact heq
  obtain ⟨dec₀, hdec₀, rfl⟩ := Cockroach.exists_decoder hmap
  -- one decoder for all rows
  let dec : RecordRow → Record := fun row' => row'.decode.getD r
  have hold : ∀ row' ∈ rowsOf db k, row'.decode = some (dec row') := by
    intro row' hrow'
    have hd := hdec₀ row' ((List.perm_insertionSort _ _).mem_iff.mpr hrow')
    simp [dec, hd]
  have hlast : dec row = r := by simp [dec, hrow]
  have hall : ∀ row' ∈ rowsOf db' k, row'.decode = some (dec row') := by
    rw [hrows]
    refine List.forall_mem_append.mpr ⟨hold, List.forall_mem_singleton.mpr ?_⟩
    rw [hlast, hrow]
  have hsame : (sortRows (rowsOf db k)).map dec₀ = sortByKey ((rowsOf db k).map dec) := by
    rw [← Cockroach.map_sortRows hold]
    refine List.map_congr_left fun row' hrow' => ?_
    have hd := hdec₀ row' hrow'
    simp [dec, hd]
  have hdecode : decodeRows (sortRows (rowsOf db' k)) = .ok ((sortRows (rowsOf db' k)).map dec) :=
    Cockroach.decodeRows_eq fun row' hrow' =>
      hall row' ((List.perm_insertionSort _ _).mem_iff.mp hrow')
  rw [hdecode, Cockroach.map_sortRows hall, hsame, hrows, List.map_append, List.map_singleton,
    hlast]
  refine congrArg _ (sortByKey_congr ((sortByKey_perm _).symm.append_right _) ?_)
  have hmem : (rowsOf db k).map dec ++ [r] = (rowsOf db' k).map dec := by
    rw [hrows, List.map_append, List.map_singleton, hlast]
  rw [hmem]
  intro x hx y hy he
  obtain ⟨rx, hrx, rfl⟩ := List.mem_map.mp hx
  obtain ⟨ry, hry, rfl⟩ := List.mem_map.mp hy
  exact Cockroach.eq_of_clusteringKey hrx hry (hall rx hrx) (hall ry hry) he

/-- No row of the table has another strategy. -/
theorem no_other_strategy (h : Paired origin table strategy s db) (hb : Scope table strategy b) :
    ∀ m ∈ db.metadata.rows, m.tableId = b.tableId → m.bucketStrategy = b.strategy := by
  intro m hm ht
  rw [hb.strategy]
  exact h.rows m.ref m (Table.find?_eq_some_iff.mpr ⟨hm, rfl⟩) (ht.trans hb.table)

/-- `append` when no row of the table has another strategy. -/
theorem append_eq {r : Record} {db₁ : Db} {state : BucketState}
    (hstrategy : ∀ m ∈ db.metadata.rows, m.tableId = b.tableId → m.bucketStrategy = b.strategy)
    (hinsert : db.insertMetadata (.new b) = .ok db₁)
    (hstate : Cockroach.stateFromMetadata db₁ b = .ok (some state)) :
    Cockroach.append b r db =
      if state = .hot then do
        let db ← db₁.insertRecord (.new b r)
        return ((), db)
      else .error (.bucketReadOnly state) := by
  unfold Cockroach.append
  split
  · rename_i hany
    obtain ⟨m, hm, hne⟩ := List.any_eq_true.mp hany
    simp only [Bool.and_eq_true, decide_eq_true_eq] at hne
    exact absurd (hstrategy m hm hne.1) hne.2
  · refine bind_of_ok hinsert (bind_of_ok hstate ?_)
    cases state <;> rfl

theorem append_alike {r : Record} (h : Paired origin table strategy s db)
    (hb : Scope table strategy b)
    (hhot : (rowOrNew db b).state = .hot → b.partitionKey = r.partitionKey ∧ r.eventTime.Whole ∧
      db.records.find? (RecordRow.new b r).key = none) :
    CallAlike table strategy f (.append b r) s db := by
  have hbucket := h.related _ hb
  have hrel := hbucket.toSameRouting
  have hc := check_rowOrNew hb db
  obtain ⟨db₁, hinsert, hset₁, hr₁, hk₁⟩ := exists_insertMetadata hb db
  have happend := append_eq (r := r) (no_other_strategy h hb) hinsert
    (stateFromMetadata_eq hk₁ (hrel.metadataState_eq hc (h.lease b hb)))
  by_cases hst : (orDefault s b).state = .hot
  · obtain ⟨hp, hw, hfresh⟩ := hhot (hrel.state_hot_iff.mp hst)
    have hs : InMemory.append b r s = (.ok (), s.insert b
        { orDefault s b with records := sortByKey ((orDefault s b).records ++ [r]) }) :=
      if_neg (not_not.mpr hst)
    have href := Cockroach.ref_new hp
    have hfk : (db₁.metadata.find? (RecordRow.new b r).ref).isSome := by rw [href, hk₁]; rfl
    obtain ⟨db₂, hdb₂⟩ := Db.insertRecord_of_absent hfk (by rw [hr₁]; exact hfresh)
    have hdb : Cockroach.append b r db = .ok ((), db₂) := by
      rw [happend, if_pos hst]
      exact bind_of_ok hdb₂ rfl
    refine alike_of_eq hs hdb (.ok ?_)
    have heffect : Cockroach.Effect f.cockroach db (.append b r) (.ok ()) db₂ :=
      Cockroach.append_effect hdb
    cases heffect with
    | look ha _ _ => cases ha
    | append _ _ hset _ hr =>
        have hrows := Cockroach.rowsOf_append hr
        rw [href] at hrows
        refine h.set hb hset ⟨hc, ⟨hrel.state, hrel.generation, hrel.token, hrel.expiry,
          hrel.retry⟩, rfl, h.lease b hb, h.retry b hb⟩ (fun k hne => ?_) ?_
        · rw [hrows, if_neg (Ne.symm hne), List.append_nil]
        · exact decodeRows_append hbucket.records (decode_new hw) (by rw [hrows, if_pos rfl])
  · have hs : InMemory.append b r s =
        (.error (.bucketReadOnly (orDefault s b).state), s.insert b (orDefault s b)) := if_pos hst
    have hdb : Cockroach.append b r db = .error (.bucketReadOnly (orDefault s b).state) := by
      rw [happend, if_neg hst]
    exact alike_of_eq hs hdb (.error (h.same (InMemory.orDefault_insert_self s b)))

/-- **One covered call**, from paired stores. -/
theorem covered_alike {q : StoreRequest} (h : Paired origin table strategy s db)
    (hscope : ∃ b, target? q = some b ∧ Scope table strategy b) (hq : Covered f db q) :
    CallAlike table strategy f q s db := by
  obtain ⟨b, hb, hscope⟩ := hscope
  cases q with
  | append b r => cases hb; exact append_alike h hscope hq
  | state b => cases hb; exact state_alike h hscope
  | beginArchive b => cases hb; exact beginArchive_alike h hscope hq.1 hq.2
  | claimArchive b d => cases hb; exact claimArchive_alike h hscope hq
  | claimCleanup b d => cases hb; exact claimCleanup_alike h hscope hq
  | renewArchiveLease session d => cases hb; exact renew_alike h hscope hq
  | snapshot session => cases hb; exact snapshot_alike h hscope hq
  | publishArchive session key => cases hb; exact publish_alike h hscope hq
  | deleteHotBucket session => cases hb; exact deleteHot_alike h hscope hq
  | abortArchive session => cases hb; exact abort_alike h hscope hq
  | deferArchive session d => cases hb; exact deferArchive_alike h hscope hq
  | deferCleanup session d => cases hb; exact deferCleanup_alike h hscope hq
  | discoverArchiveWork t => cases hb
  | readRange b range => cases hb

/-- **The in-memory store simulates the Cockroach store** along covered calls: the results are the
same, and so is what the stores hold at the end. -/
theorem memory_simulates_cockroach {calls : List (Input origin)}
    (hscope : ∀ i ∈ calls, ∃ b, target? i.request = some b ∧ Scope table strategy b)
    (hcovered : Machine.Guarded (memory origin) (cockroach origin)
      (fun i _ db => Covered i.feed db i.request) calls ∅ Db.empty) :
    (memory origin).answers calls ∅ = (cockroach origin).answers calls Db.empty ∧
      Related origin table strategy ((memory origin).after calls ∅)
        ((cockroach origin).after calls Db.empty) := by
  have hstep : ∀ i ∈ calls, ∀ s db, Paired origin table strategy s db →
      Covered i.feed db i.request →
      CallAlike table strategy i.feed i.request s db :=
    fun i hi s db hpaired hq => covered_alike hpaired (hscope i hi) hq
  obtain ⟨hanswers, hpaired⟩ := Machine.lockstep hstep paired_empty hcovered
  exact ⟨hanswers, hpaired.related⟩

end Call

/-! ### Samples -/

namespace Sample
open Pulpitum.Sample

/-- Both clocks stand at the start of the year bucket. -/
def feed : Feed bucket.start where
  now := 0
  base := 0
  sqlNow := bucket.start.toSql
  utcNow := bucket.start
  token := "a"
  same_now := by unfold SameTime; decide
  same_base := by decide

/-- The calls, all with the same readings. -/
def inputs (qs : List StoreRequest) : List (Input bucket.start) := qs.map fun q => ⟨feed, q⟩

/-- A record is appended, and its bucket is archived and emptied. -/
def cutover : List StoreRequest :=
  [.append bucket record, .beginArchive bucket, .snapshot ⟨bucket, "a", 1⟩,
    .publishArchive ⟨bucket, "a", 1⟩ "object", .deleteHotBucket ⟨bucket, "a", 1⟩]

end Sample

/-- The stores agree on the whole cutover of a bucket. -/
theorem memory_simulates_cockroach_of_cutover :
    (memory _).answers (Sample.inputs Sample.cutover) ∅ =
        (cockroach _).answers (Sample.inputs Sample.cutover) Db.empty ∧
      Related Pulpitum.Sample.bucket.start Pulpitum.Sample.bucket.tableId
        Pulpitum.Sample.bucket.strategy ((memory _).after (Sample.inputs Sample.cutover) ∅)
        ((cockroach _).after (Sample.inputs Sample.cutover) Db.empty) := by
  have hscope : Scope Pulpitum.Sample.bucket.tableId Pulpitum.Sample.bucket.strategy
      Pulpitum.Sample.bucket := ⟨Cockroach.Sample.bucket_canonical, rfl, rfl⟩
  refine memory_simulates_cockroach ?_ ?_
  · simp only [Sample.inputs, Sample.cutover, List.map_cons, List.map_nil, List.forall_mem_cons,
      target?, Option.some.injEq, exists_eq_left']
    simpa using hscope
  · have hhot : (rowOrNew (cockroach _ ⟨Sample.feed, .append Pulpitum.Sample.bucket
        Pulpitum.Sample.record⟩ Db.empty).2 Pulpitum.Sample.bucket) =
          .new Pulpitum.Sample.bucket := rfl
    have hgen : 1 < 2 ^ 63 := by decide
    refine ⟨fun _ => ⟨rfl, ?_, rfl⟩, ⟨?_, ?_⟩, hgen, hgen, hgen, trivial⟩
    · exact DateTime.whole_midnight (h := by decide)
    · rintro ⟨h, -⟩
      rw [hhot] at h
      cases h
    · intro _
      rw [hhot]
      exact ⟨rfl, by unfold Counts; decide, _, rfl⟩

/-- **An append that is repeated**: in memory both succeed, in the database the second fails. -/
theorem duplicate_append_diverges :
    (memory _).answers (Sample.inputs [.append Pulpitum.Sample.bucket Pulpitum.Sample.record,
        .append Pulpitum.Sample.bucket Pulpitum.Sample.record]) ∅ ≠
      (cockroach _).answers (Sample.inputs [.append Pulpitum.Sample.bucket Pulpitum.Sample.record,
        .append Pulpitum.Sample.bucket Pulpitum.Sample.record]) Db.empty := by
  let i : Input Pulpitum.Sample.bucket.start :=
    ⟨Sample.feed, .append Pulpitum.Sample.bucket Pulpitum.Sample.record⟩
  have hmemory : (memory _).answers [i, i] ∅ = [⟨i, .ok ()⟩, ⟨i, .ok ()⟩] := rfl
  have hcockroach : (cockroach _).answers [i, i] Db.empty =
      [⟨i, .ok ()⟩, ⟨i, .error .operationFailed⟩] := rfl
  intro h
  have hne := hmemory.symm.trans (h.trans hcockroach)
  simp at hne

end Simulation
end Pulpitum
