import Mathlib
import Pulpitum.Ports.InMemory
import Pulpitum.Adapters.CockroachRead
import Pulpitum.Adapters.CockroachInvariants

/-!
# Adapters — The relation of the two stores

When the in-memory store and the Cockroach store hold the same: bucket by bucket the same routing
state, generation, owner token, lease end, retry time and hot records.  A reading of the monotonic
clock is the same time as a stored one if both are as far from the time at which that clock read
zero; a bucket without an entry or without a row is one that holds nothing.

* `SameBucket`: one bucket.
* `Related`: **the two stores hold the same**, for the buckets of one table.
* `Paired.set`: a call that changes one bucket alike keeps the stores related.
-/

namespace Pulpitum
namespace Simulation

open Cockroach (MetadataRow RecordRow Db SetsRow refOf rowOrNew rowsOf decodeRows sortRows
  LeaseDecodes)
open InMemory (Entry Store orDefault)

/-! ### Clocks -/

/-- The reading of the monotonic clock is the stored time, if the clock read zero at `origin`. -/
def SameTime (origin : DateTime) (x : Instant) (m : SqlTime) : Prop :=
  origin.nanos + (x : ℤ) = DateTime.sqlEpoch + m * 1000

theorem SameTime.le_iff {origin : DateTime} {x y : ℕ} {m k : ℤ}
    (hx : SameTime origin x m) (hy : SameTime origin y k) : x ≤ y ↔ m ≤ k := by
  unfold SameTime at hx hy
  omega

theorem SameTime.lt_iff {origin : DateTime} {x y : ℕ} {m k : ℤ}
    (hx : SameTime origin x m) (hy : SameTime origin y k) : x < y ↔ m < k := by
  unfold SameTime at hx hy
  omega

/-! ### One bucket -/

/-- The row is in the state. -/
def SameState (m : MetadataRow) : BucketState → Prop
  | .hot => m.state = .hot
  | .archiving => m.state = .archiving
  | .archived objectKey hotDeleted =>
      m.state = .archived ∧ m.archiveObjectKey = some objectKey ∧ m.hotDeleted = hotDeleted

/-- A row is in one state. -/
theorem SameState.unique {m : MetadataRow} {st st' : BucketState} (h : SameState m st)
    (h' : SameState m st') : st = st' := by
  cases st <;> cases st' <;> simp_all [SameState]

theorem SameState.congr {m m' : MetadataRow} {st : BucketState} (h : SameState m st)
    (hs : m'.state = m.state) (hk : m'.archiveObjectKey = m.archiveObjectKey)
    (hd : m'.hotDeleted = m.hotDeleted) : SameState m' st := by
  cases st with
  | hot => exact hs.trans h
  | archiving => exact hs.trans h
  | archived key deleted => exact ⟨hs.trans h.1, hk.trans h.2.1, hd.trans h.2.2⟩

/-- The entry and the row say the same of the routing of a bucket. -/
structure SameRouting (origin : DateTime) (e : Entry) (m : MetadataRow) : Prop where
  state : SameState m e.state
  generation : m.generation = e.generation
  token : m.archiveOwnerToken = e.archiveOwnerToken
  expiry : Option.Rel (SameTime origin) e.archiveOwnerExpiresAt m.archiveOwnerExpiresAt
  retry : Option.Rel (SameTime origin) e.nextAttemptAt m.archiveNextAttemptAt

/-- The entry holds what the row and the record rows of a bucket hold. -/
structure SameBucket (origin : DateTime) (e : Entry) (m : MetadataRow) (rows : List RecordRow) :
    Prop extends SameRouting origin e m where
  records : decodeRows (sortRows rows) = .ok e.records

/-- A bucket of the table that its strategy derives. -/
structure Scope (table : TableId) (strategy : BucketStrategy) (b : BucketId) : Prop where
  canonical : b.Canonical
  table : b.tableId = table
  strategy : b.strategy = strategy

/-- **The two stores hold the same**, bucket by bucket. -/
def Related (origin : DateTime) (table : TableId) (strategy : BucketStrategy)
    (s : Store) (db : Db) :
    Prop :=
  ∀ b, Scope table strategy b →
    SameBucket origin (orDefault s b) (rowOrNew db b) (rowsOf db (refOf b))

theorem related_empty (origin : DateTime) (table : TableId) (strategy : BucketStrategy) :
    Related origin table strategy ∅ Db.empty :=
  fun _ _ => ⟨⟨rfl, rfl, rfl, .none, .none⟩, rfl⟩

section Conditions

variable {origin : DateTime} {e : Entry} {m : MetadataRow} {now : Instant} {sqlNow : SqlTime}

theorem SameRouting.state_iff (h : SameRouting origin e m) :
    (e.state = .hot ↔ m.state = .hot) ∧ (e.state = .archiving ↔ m.state = .archiving) := by
  have hs := h.state
  cases he : e.state with
  | hot => rw [he] at hs; simp [show m.state = .hot from hs]
  | archiving => rw [he] at hs; simp [show m.state = .archiving from hs]
  | archived key deleted => rw [he] at hs; simp [hs.1]

theorem SameRouting.state_hot_iff (h : SameRouting origin e m) : e.state = .hot ↔ m.state = .hot :=
  h.state_iff.1

theorem SameRouting.state_archiving_iff (h : SameRouting origin e m) :
    e.state = .archiving ↔ m.state = .archiving := h.state_iff.2

theorem SameRouting.cleanup_iff (h : SameRouting origin e m) :
    InMemory.cleanupPending e.state = true ↔ m.state = .archived ∧ m.hotDeleted = false := by
  have hs := h.state
  cases he : e.state with
  | hot => rw [he] at hs; simp [InMemory.cleanupPending, show m.state = .hot from hs]
  | archiving => rw [he] at hs; simp [InMemory.cleanupPending, show m.state = .archiving from hs]
  | archived key deleted =>
      rw [he] at hs
      cases deleted <;> simp [InMemory.cleanupPending, hs.1, hs.2.2]

theorem SameRouting.due_iff (h : SameRouting origin e m) (hn : SameTime origin now sqlNow) :
    InMemory.attemptDue e now = Cockroach.attemptDue m sqlNow := by
  have hr := h.retry
  unfold InMemory.attemptDue Cockroach.attemptDue
  generalize e.nextAttemptAt = x at hr ⊢
  generalize m.archiveNextAttemptAt = k at hr ⊢
  cases hr with
  | none => rfl
  | some hk => simp [hk.le_iff hn]

theorem SameRouting.expired_iff (h : SameRouting origin e m) (hn : SameTime origin now sqlNow) :
    InMemory.leaseExpired e now =
      (m.archiveOwnerExpiresAt.isNone || Cockroach.leaseOver m sqlNow) := by
  have hr := h.expiry
  unfold InMemory.leaseExpired Cockroach.leaseOver
  generalize e.archiveOwnerExpiresAt = x at hr ⊢
  generalize m.archiveOwnerExpiresAt = k at hr ⊢
  cases hr with
  | none => rfl
  | some hk => simp [hk.le_iff hn]

/-- A row that is being archived has a lease, so a missing one makes no difference. -/
theorem SameRouting.over_iff (h : SameRouting origin e m) (hn : SameTime origin now sqlNow)
    (hc : m.Check) (hs : m.state = .archiving) :
    InMemory.leaseExpired e now = Cockroach.leaseOver m sqlNow := by
  rw [h.expired_iff hn]
  rcases hc.2.1 with hi | hi | hi
  · cases hs.symm.trans hi.1
  · obtain ⟨t, ht⟩ := Option.ne_none_iff_exists'.mp hi.2.2.1
    simp [ht]
  · cases hs.symm.trans hi.1

theorem SameRouting.held_iff (h : SameRouting origin e m) (hn : SameTime origin now sqlNow)
    (session : ArchiveSession) :
    e.Held session now ↔ Cockroach.heldBy m session sqlNow = true := by
  have hr := h.expiry
  have hheld : e.Held session now ↔ e.generation = session.generation ∧
      e.archiveOwnerToken = some session.ownerToken ∧
      ∃ x, e.archiveOwnerExpiresAt = some x ∧ now < x :=
    ⟨fun h => ⟨h.generation, h.token, h.lease⟩, fun h => ⟨h.1, h.2.1, h.2.2⟩⟩
  rw [hheld]
  unfold Cockroach.heldBy
  rw [h.generation, h.token]
  generalize e.archiveOwnerExpiresAt = x at hr ⊢
  generalize m.archiveOwnerExpiresAt = k at hr ⊢
  cases hr with
  | none => simp
  | some hk => simp [hn.lt_iff hk, and_assoc]

/-- A row is decoded to the state of its entry. -/
theorem SameRouting.metadataState_eq (h : SameRouting origin e m) (hc : m.Check)
    (hd : LeaseDecodes m) : Cockroach.metadataState m = .ok e.state := by
  rcases Cockroach.metadataState_cases hc.2.1 hd with ⟨hm, hst⟩ | ⟨hm, hst⟩ | ⟨key, hm, hkey, hst⟩
  · rw [hst, SameState.unique (show SameState m .hot from hm) h.state]
  · rw [hst, SameState.unique (show SameState m .archiving from hm) h.state]
  · rw [hst, SameState.unique (show SameState m (.archived key _) from ⟨hm, hkey, rfl⟩) h.state]

end Conditions

/-! ### The stores together -/

/-- The two stores hold the same, and what else holds of them along a run. -/
structure Paired (origin : DateTime) (table : TableId) (strategy : BucketStrategy) (s : Store)
    (db : Db) : Prop where
  related : Related origin table strategy s db
  /-- The rows of the table have its strategy. -/
  rows : ∀ k m, db.metadata.find? k = some m → m.tableId = table → m.bucketStrategy = strategy
  /-- Leases decode. -/
  lease : ∀ b, Scope table strategy b → LeaseDecodes (rowOrNew db b)
  /-- A bucket that is being archived has no retry time. -/
  retry : ∀ b, Scope table strategy b → (orDefault s b).state = .archiving →
    (orDefault s b).nextAttemptAt = none

/-- A bucket whose row was `m` gets the row `m'`, and the entry `e'` that says the same. -/
structure Changes (origin : DateTime) (m : MetadataRow) (e' : Entry) (m' : MetadataRow) : Prop where
  check : m'.Check
  routing : SameRouting origin e' m'
  strategy : m'.bucketStrategy = m.bucketStrategy
  lease : LeaseDecodes m'
  retry : e'.state = .archiving → e'.nextAttemptAt = none

section Paired

variable {origin : DateTime} {table : TableId} {strategy : BucketStrategy} {s s' : Store}
  {db db' : Db} {b b' : BucketId}

theorem paired_empty : Paired origin table strategy ∅ Db.empty where
  related := related_empty origin table strategy
  rows := fun _ _ h => by cases h
  lease := fun _ _ t h => by cases h
  retry := fun _ _ h => by cases h

theorem Scope.eq_of_ref (hb : Scope table strategy b) (hb' : Scope table strategy b')
    (h : refOf b = refOf b') : b = b' := by
  obtain ⟨ht, hpk⟩ := Prod.mk.inj h
  obtain ⟨hp, hk⟩ := Prod.mk.inj hpk
  exact hb.canonical.eq_of_key hb'.canonical ht hp hk

theorem check_new (hb : Scope table strategy b) : (MetadataRow.new b).Check := by
  obtain ⟨hs, he⟩ := hb.canonical.whole
  have hlt := hb.canonical.bounds.2.2
  rw [DateTime.lt_iff_of_fromSql hs.fromSql_toSql he.fromSql_toSql] at hlt
  exact ⟨hlt, .inl ⟨rfl, rfl, rfl, rfl, rfl⟩, by simp [MetadataRow.new], by simp [MetadataRow.new]⟩

theorem check_rowOrNew (hb : Scope table strategy b) (db : Db) : (rowOrNew db b).Check := by
  unfold rowOrNew
  cases h : db.metadata.find? (refOf b) with
  | none => exact check_new hb
  | some m => exact Table.check_of_find? h

theorem Paired.strategy_rowOrNew (h : Paired origin table strategy s db)
    (hb : Scope table strategy b) : (rowOrNew db b).bucketStrategy = strategy := by
  have hr := Cockroach.ref_rowOrNew db b
  unfold rowOrNew at hr ⊢
  cases hm : db.metadata.find? (refOf b) with
  | none => exact hb.strategy
  | some m =>
      rw [hm] at hr
      exact h.rows _ m hm ((congrArg Prod.fst hr).trans hb.table)

/-- A store whose entries are the same is as good. -/
theorem Paired.same (h : Paired origin table strategy s db)
    (hs : ∀ b, orDefault s' b = orDefault s b) : Paired origin table strategy s' db where
  related := fun b hb => by rw [hs]; exact h.related b hb
  rows := h.rows
  lease := h.lease
  retry := fun b hb => by rw [hs]; exact h.retry b hb

/-- **One bucket changed alike** in both stores. -/
theorem Paired.set (h : Paired origin table strategy s db) (hb : Scope table strategy b)
    {e' : Entry} {m' : MetadataRow} (hset : SetsRow db (refOf b) m' db')
    (hchange : Changes origin (rowOrNew db b) e' m')
    (hrows : ∀ k, k ≠ refOf b → rowsOf db' k = rowsOf db k)
    (hrecords : decodeRows (sortRows (rowsOf db' (refOf b))) = .ok e'.records) :
    Paired origin table strategy (s.insert b e') db' := by
  have hrow : rowOrNew db' b = m' := by
    rw [rowOrNew, hset.find?, if_pos rfl]
    rfl
  have hother : ∀ b', Scope table strategy b' → b' ≠ b →
      refOf b' ≠ refOf b ∧ rowOrNew db' b' = rowOrNew db b' := by
    intro b' hb' hne
    have href : refOf b' ≠ refOf b := fun e => hne (hb'.eq_of_ref hb e)
    refine ⟨href, ?_⟩
    rw [rowOrNew, hset.find?, if_neg (Ne.symm href)]
    rfl
  refine ⟨fun b' hb' => ?_, fun k m hm ht => ?_, fun b' hb' => ?_, fun b' hb' => ?_⟩
  · by_cases e : b' = b
    · subst e
      rw [InMemory.orDefault_insert, if_pos rfl, hrow]
      exact ⟨hchange.routing, hrecords⟩
    · obtain ⟨href, hsame⟩ := hother b' hb' e
      rw [InMemory.orDefault_insert, if_neg e, hsame, hrows _ href]
      exact h.related b' hb'
  · rw [hset.find?] at hm
    split at hm
    · cases hm
      exact hchange.strategy.trans (h.strategy_rowOrNew hb)
    · exact h.rows k m hm ht
  · by_cases e : b' = b
    · subst e
      rw [hrow]
      exact hchange.lease
    · rw [(hother b' hb' e).2]
      exact h.lease b' hb'
  · by_cases e : b' = b
    · subst e
      rw [InMemory.orDefault_insert, if_pos rfl]
      exact hchange.retry
    · rw [InMemory.orDefault_insert, if_neg e]
      exact h.retry b' hb'

/-- A change that leaves the records. -/
theorem Paired.setRouting (h : Paired origin table strategy s db) (hb : Scope table strategy b)
    {e' : Entry} {m' : MetadataRow} (hset : SetsRow db (refOf b) m' db')
    (hchange : Changes origin (rowOrNew db b) e' m')
    (hr : db'.records = db.records) (he : e'.records = (orDefault s b).records) :
    Paired origin table strategy (s.insert b e') db' := by
  have hrows := Cockroach.rowsOf_congr hr
  refine h.set hb hset hchange (fun k _ => hrows k) ?_
  rw [hrows, he]
  exact (h.related b hb).records

end Paired

end Simulation
end Pulpitum
