import Mathlib
import Pulpitum.Support.Runs
import Pulpitum.Ports.InMemory

/-!
# Ports — The invariant of the in-memory store

What the entries of `InMemoryDurableBucketStore` keep: owner and lease go with the state, a deleted
bucket has no records, and records are in their order.  An operation that fails should leave every
entry alone.  `begin_archive` writes the fence before it computes the end of the lease, so at the
end of the monotonic clock it does neither.

* `Effect.keeps`: what an operation other than `begin_archive` can do keeps the invariant.
* `keeps_iff_inTime`: **an operation keeps the invariant and fails atomically exactly when the
  lease of `begin_archive` has an end**, after any operations for which it had.
-/

namespace Pulpitum
namespace InMemory

/-- The invariant of an entry. -/
structure Entry.Valid (e : Entry) : Prop where
  hot : e.state = .hot → e.archiveOwnerToken = none ∧ e.archiveOwnerExpiresAt = none
  archiving : e.state = .archiving → e.archiveOwnerToken ≠ none ∧ e.archiveOwnerExpiresAt ≠ none
  deleted : ∀ key, e.state = .archived key true → e.records = []
  sorted : e.records.Pairwise fun a b => a.clusteringKey ≤ b.clusteringKey

/-- Every entry has the invariant; a bucket without one counts as a default entry. -/
def Valid (s : Store) : Prop := ∀ b, (orDefault s b).Valid

theorem Entry.valid_default : Entry.default.Valid where
  hot := fun _ => ⟨rfl, rfl⟩
  archiving := fun h => by cases h
  deleted := fun _ h => by cases h
  sorted := .nil

theorem valid_empty : Valid ∅ := fun _ => Entry.valid_default

variable {env : Env} {s s' : Store} {q : StoreRequest} {b : BucketId} {e : Entry}

theorem Valid.insert (h : Valid s) (he : e.Valid) : Valid (s.insert b e) := by
  intro b'
  rw [orDefault_insert]
  split
  · exact he
  · exact h b'

theorem Valid.same (h : Valid s) (hs : ∀ b, orDefault s' b = orDefault s b) : Valid s' :=
  fun b => by rw [hs]; exact h b

/-- The lease of a `begin_archive` that would take the bucket has an end. -/
def InTime (env : Env) (s : Store) : StoreRequest → Prop
  | .beginArchive b => (orDefault s b).state = .hot → (orDefault s b).generation + 1 < 2 ^ 64 →
      env.first + beginLease ≤ Instant.max
  | _ => True

/-- The operation leaves every entry as it was, if it fails. -/
def Atomic (s : Store) (q : StoreRequest) (r : q.Reply) (s' : Store) : Prop :=
  ∀ e, r = .error e → ∀ b, orDefault s' b = orDefault s b

/-- The operation keeps the invariant and fails atomically. -/
def Keeps (env : Env) (q : StoreRequest) (s : Store) : Prop :=
  Valid (exec env q s).2 ∧ Atomic s q (exec env q s).1 (exec env q s).2

/-- **What an operation can do keeps the invariant**, and what fails changes nothing, except for
`begin_archive`. -/
theorem Effect.keeps {r : q.Reply} (h : Valid s) (heff : Effect env s q r s')
    (hq : ∀ b, q ≠ .beginArchive b) : Valid s' ∧ Atomic s q r s' := by
  cases heff with
  | look _ _ _ same => exact ⟨h.same same, fun _ _ => same⟩
  | refused => exact ⟨h, fun _ _ _ => rfl⟩
  | @append b r hp =>
      have hb := h b
      refine ⟨h.insert ⟨hb.hot, hb.archiving, fun key hk => ?_, sortByKey_pairwise _⟩,
        fun _ he => by cases he⟩
      cases hp.symm.trans hk
  | @claimArchive b d _ =>
      refine ⟨h.insert ⟨fun hs => ?_, fun _ => ⟨by simp, by simp⟩, fun _ hk => ?_, (h b).sorted⟩,
        fun _ he => by cases he⟩
      · cases hs
      · cases hk
  | @claimCleanup b d key hp _ =>
      refine ⟨h.insert ⟨fun hs => ?_, fun _ => ⟨by simp, by simp⟩, (h b).deleted, (h b).sorted⟩,
        fun _ he => by cases he⟩
      cases hp.symm.trans hs
  | beginArchive => exact absurd rfl (hq _)
  | fence => exact absurd rfl (hq _)
  | @renew session d held =>
      have hb := h session.bucket
      have htoken := held.token
      refine ⟨h.insert ⟨fun hs => ?_, fun hs => ⟨(hb.archiving hs).1, by simp⟩, hb.deleted,
        hb.sorted⟩, fun _ he => by cases he⟩
      -- a hot bucket has no owner
      cases (hb.hot hs).1.symm.trans htoken
  | @deferArchive session d hp _ =>
      have hb := h session.bucket
      refine ⟨h.insert ⟨fun _ => ⟨rfl, rfl⟩, fun hs => ?_, fun _ hk => ?_, hb.sorted⟩,
        fun _ he => by cases he⟩
      · cases hs
      · cases hk
  | @deferCleanup session d key hp _ =>
      have hb := h session.bucket
      refine ⟨h.insert ⟨fun hs => ?_, fun hs => ?_, hb.deleted, hb.sorted⟩, fun _ he => by cases he⟩
      · cases hp.symm.trans hs
      · cases hp.symm.trans hs
  | @snapshot session _ _ =>
      exact ⟨h.insert (h session.bucket), fun _ he => by cases he⟩
  | @publish session key _ _ =>
      refine ⟨h.insert ⟨fun hs => ?_, fun hs => ?_, fun _ hk => ?_, (h session.bucket).sorted⟩,
        fun _ he => by cases he⟩
      · cases hs
      · cases hs
      · cases hk
  | @deleteHot session key _ _ =>
      refine ⟨h.insert ⟨fun hs => ?_, fun hs => ?_, fun _ _ => rfl, .nil⟩, fun _ he => by cases he⟩
      · cases hs
      · cases hs
  | @abort session _ _ =>
      refine ⟨h.insert ⟨fun _ => ⟨rfl, rfl⟩, fun hs => ?_, fun _ hk => ?_,
        (h session.bucket).sorted⟩,
        fun _ he => by cases he⟩
      · cases hs
      · cases hk

/-! ### The fence -/

/-- What `begin_archive` does: it refuses the bucket, takes it, or closes the fence and fails. -/
theorem beginArchive_cases (env : Env) (b : BucketId) (s : Store) :
    (InTime env s (.beginArchive b) ∧
      ((∃ e, beginArchive env b s = (.error e, s.insert b (orDefault s b))) ∨
        ∃ g x, beginArchive env b s = (.ok ⟨b, env.token, g⟩, s.insert b
          { (orDefault s b).fence env.token g with
            archiveOwnerExpiresAt := some x
            nextAttemptAt := none }))) ∨
    (¬ InTime env s (.beginArchive b) ∧ (orDefault s b).state = .hot ∧
      ∃ g, beginArchive env b s =
        (.error .operationFailed, s.insert b ((orDefault s b).fence env.token g))) := by
  by_cases hst : (orDefault s b).state = .hot
  · cases hg : nextGeneration (orDefault s b).generation with
    | none =>
        refine .inl ⟨fun _ hlt => ?_, .inl ⟨.operationFailed, ?_⟩⟩
        · rw [nextGeneration, if_pos hlt] at hg
          cases hg
        · unfold beginArchive
          rw [if_neg (not_not.mpr hst), hg]
    | some g =>
        have hlt : (orDefault s b).generation + 1 < 2 ^ 64 := by
          by_contra hge
          rw [nextGeneration, if_neg hge] at hg
          cases hg
        by_cases hmax : env.first + beginLease ≤ Instant.max
        · have hlease : leaseDeadline env.first beginLease = .ok (env.first + beginLease) :=
            leaseDeadline_eq_ok (by decide) hmax
          exact .inl ⟨fun _ _ => hmax, .inr ⟨g, _, beginArchive_eq_ok hst hg hlease⟩⟩
        · have hlease : leaseDeadline env.first beginLease = .error .operationFailed :=
            leaseDeadline_eq_error hmax
          exact .inr ⟨fun h => hmax (h hst hlt), hst, g, beginArchive_eq_fence hst hg hlease⟩
  · exact .inl ⟨fun h => absurd h hst, .inl ⟨_, if_pos hst⟩⟩

/-- **One operation**, from a store that has the invariant. -/
theorem Valid.keeps_iff (h : Valid s) (env : Env) (q : StoreRequest) :
    Keeps env q s ↔ InTime env s q := by
  by_cases hq : ∃ b, q = .beginArchive b
  · obtain ⟨b, rfl⟩ := hq
    have hexec : exec env (.beginArchive b) s = beginArchive env b s := rfl
    unfold Keeps
    rcases beginArchive_cases env b s with ⟨htime, ⟨e, hb⟩ | ⟨g, x, hb⟩⟩ | ⟨htime, hst, g, hb⟩
    · rw [hexec, hb]
      exact iff_of_true ⟨h.insert (h b), fun _ _ => orDefault_insert_self s b⟩ htime
    · rw [hexec, hb]
      refine iff_of_true ⟨h.insert ⟨fun hs => ?_, fun _ => ⟨by simp [Entry.fence], by simp⟩,
        fun _ hk => ?_, (h b).sorted⟩, fun _ he => by cases he⟩ htime
      · cases hs
      · cases hk
    · rw [hexec, hb]
      refine iff_of_false (fun ⟨hvalid, _⟩ => ?_) htime
      -- the fence is closed, and there is no lease
      have hentry := hvalid b
      rw [orDefault_insert, if_pos rfl] at hentry
      exact (hentry.archiving rfl).2 ((h b).hot hst).2
  · have hkeeps := Effect.keeps h (exec_effect env q s) fun b hb => hq ⟨b, hb⟩
    refine iff_of_true hkeeps ?_
    cases q with
    | beginArchive b => exact absurd ⟨b, rfl⟩ hq
    | _ => trivial

/-- A call in time. -/
def TimelyStep (s : Store) (c : Call Env) (s' : Store) : Prop :=
  Call.Step exec s c s' ∧ InTime c.env s c.request

/-- The invariant holds along every run of calls in time. -/
theorem valid_of_run {calls : List (Call Env)} (hr : Run TimelyStep ∅ calls s) : Valid s := by
  refine Run.invariant (I := Valid) (fun s c s' h hstep => ?_) hr valid_empty
  have hkeeps := ((h.keeps_iff c.env c.request).mpr hstep.2).1
  rw [show exec c.env c.request s = (c.reply, s') from hstep.1] at hkeeps
  exact hkeeps

/-- **The invariant and atomic failure.**  In every state that calls in time lead to, the invariant
holds, and a further operation keeps it and fails atomically exactly when it is in time. -/
theorem keeps_iff_inTime {calls : List (Call Env)} (hr : Run TimelyStep ∅ calls s) :
    Valid s ∧ ∀ env q, Keeps env q s ↔ InTime env s q :=
  ⟨valid_of_run hr, (valid_of_run hr).keeps_iff⟩

/-- An append at the start of the clock, and `begin_archive` after it. -/
theorem keeps_iff_inTime_of_append :
    let s := (exec ⟨0, 0, "a"⟩ (.append Sample.bucket Sample.record) ∅).2
    Valid s ∧ Keeps ⟨0, 0, "a"⟩ (.beginArchive Sample.bucket) s := by
  intro s
  have hr : Run TimelyStep ∅ [Call.of exec ⟨0, 0, "a"⟩ (.append Sample.bucket Sample.record) ∅] s :=
    .one ⟨Call.step_of .., trivial⟩
  obtain ⟨hvalid, hiff⟩ := keeps_iff_inTime hr
  refine ⟨hvalid, (hiff _ _).mpr fun _ _ => ?_⟩
  unfold beginLease Instant.max
  decide

/-- **The fence without a lease**: at the last reading of the clock, `begin_archive` fails, and
leaves the bucket archiving with an owner and no lease. -/
theorem failed_begin_closes_fence :
    (exec ⟨Instant.max, 0, "a"⟩ (.beginArchive Sample.bucket) ∅).1 = .error .operationFailed ∧
      (orDefault (exec ⟨Instant.max, 0, "a"⟩ (.beginArchive Sample.bucket) ∅).2
        Sample.bucket).state = .archiving ∧
      (orDefault (exec ⟨Instant.max, 0, "a"⟩ (.beginArchive Sample.bucket) ∅).2
        Sample.bucket).archiveOwnerExpiresAt = none := by
  have hnot : ¬ InTime ⟨Instant.max, 0, "a"⟩ ∅ (.beginArchive Sample.bucket) := by
    intro h
    have hle : Instant.max + beginLease ≤ Instant.max := h rfl (by decide)
    have hpos : 0 < beginLease := by decide
    exact absurd hle (Nat.not_le.mpr (Nat.lt_add_of_pos_right hpos))
  rcases beginArchive_cases ⟨Instant.max, 0, "a"⟩ Sample.bucket ∅ with ⟨h, -⟩ | ⟨-, -, g, hb⟩
  · exact absurd h hnot
  · have hexec : exec ⟨Instant.max, 0, "a"⟩ (.beginArchive Sample.bucket) ∅ = _ := hb
    rw [hexec, orDefault_insert, if_pos rfl]
    exact ⟨rfl, rfl, rfl⟩

end InMemory
end Pulpitum
