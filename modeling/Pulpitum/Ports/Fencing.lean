import Mathlib
import Pulpitum.Support.Runs
import Pulpitum.Ports.InMemory

/-!
# Ports — Fencing

Archive sessions in the in-memory store.  A run is a list of calls with their replies, whoever
makes them and whatever the clock says; from it one reads the sessions issued for a bucket, the
sessions that were ended, and the deadline of a session's lease.

* `Fenced.step`, `Fenced.run`: along every run, an entry that has an owner and a lease belongs to
  the last session issued for the bucket, which has not been ended.
* `session_fencing`: **fencing** — generations strictly increase, an operation on a session
  succeeds only for the last session issued, not ended and within its lease, and otherwise changes
  nothing.
-/

namespace Pulpitum
namespace InMemory

/-- The session and the deadline up to which the call granted it a lease. -/
def granted : Call Env → Option (ArchiveSession × Instant)
  | ⟨env, .claimArchive _ d, .ok (some s)⟩ => some (s, env.second + d)
  | ⟨env, .claimCleanup _ d, .ok (some s)⟩ => some (s, env.second + d)
  | ⟨env, .beginArchive _, .ok s⟩ => some (s, env.first + beginLease)
  | ⟨env, .renewArchiveLease s d, .ok ()⟩ => some (s, env.first + d)
  | ⟨env, .deferCleanup s d, .ok ()⟩ => some (s, env.first + d)
  | _ => none

theorem granted_error {env : Env} {q : StoreRequest} {e : DurableBucketStoreError} :
    granted ⟨env, q, .error e⟩ = none := by
  cases q <;> rfl

/-- Only operations on a session, and those that issue one, grant a lease. -/
theorem granted_eq_none {c : Call Env} (h : c.request.session? = none) (hi : c.issued = none) :
    granted c = none := by
  obtain ⟨env, q, r⟩ := c
  cases q with
  | claimArchive b d =>
      obtain e | _ | x := r
      · rfl
      · rfl
      · cases hi
  | claimCleanup b d =>
      obtain e | _ | x := r
      · rfl
      · rfl
      · cases hi
  | beginArchive b =>
      obtain e | x := r
      · rfl
      · cases hi
  | append | state | discoverArchiveWork | readRange => rfl
  | renewArchiveLease | deferArchive | deferCleanup | snapshot | publishArchive
  | deleteHotBucket | abortArchive => cases h

/-- The reading at which the call checks its session. -/
def checkedAt (c : Call Env) : Instant :=
  if c.request.duration?.isSome then c.env.second else c.env.first

/-- The sessions issued for a bucket, in order. -/
def sessionsOf (calls : List (Call Env)) (b : BucketId) : List ArchiveSession :=
  (calls.filterMap Call.issued).filter fun x => x.bucket = b

/-- The session was ended by `abort_archive` or `defer_archive`. -/
def IsEnded (calls : List (Call Env)) (x : ArchiveSession) : Prop := ∃ c ∈ calls, c.ended = some x

/-- The deadline last granted to the session. -/
def leaseOf (calls : List (Call Env)) (x : ArchiveSession) : Option Instant :=
  ((calls.filterMap granted).filter fun g => g.1 = x).getLast?.map Prod.snd

/-! ### One more call -/

section Snoc

variable {calls : List (Call Env)} {c : Call Env}

theorem sessionsOf_snoc_none (h : c.issued = none) (b : BucketId) :
    sessionsOf (calls ++ [c]) b = sessionsOf calls b := by
  simp [sessionsOf, List.filterMap_append, h]

theorem sessionsOf_snoc_some {x : ArchiveSession} (h : c.issued = some x) (b : BucketId) :
    sessionsOf (calls ++ [c]) b =
      if x.bucket = b then sessionsOf calls b ++ [x] else sessionsOf calls b := by
  by_cases e : x.bucket = b
  · simp [sessionsOf, List.filterMap_append, h, e]
  · simp [sessionsOf, List.filterMap_append, h, e]

theorem isEnded_snoc {x : ArchiveSession} :
    IsEnded (calls ++ [c]) x ↔ IsEnded calls x ∨ c.ended = some x := by
  simp [IsEnded, or_and_right, exists_or]

theorem leaseOf_snoc_none (h : granted c = none) (x : ArchiveSession) :
    leaseOf (calls ++ [c]) x = leaseOf calls x := by
  simp [leaseOf, List.filterMap_append, h]

theorem leaseOf_snoc_some {y : ArchiveSession} {t : Instant} (h : granted c = some (y, t))
    (x : ArchiveSession) :
    leaseOf (calls ++ [c]) x = if y = x then some t else leaseOf calls x := by
  by_cases e : y = x
  · simp [leaseOf, List.filterMap_append, h, e]
  · simp [leaseOf, List.filterMap_append, h, e]

end Snoc

/-! ### The invariant -/

/-- What the calls made so far say about the entries. -/
structure Fenced (calls : List (Call Env)) (s : Store) : Prop where
  increasing : ∀ b, (sessionsOf calls b).Pairwise fun x y => x.generation < y.generation
  /-- No session is of a generation to come. -/
  le : ∀ b, ∀ x ∈ sessionsOf calls b, x.generation ≤ (orDefault s b).generation
  /-- Only issued sessions are ended. -/
  ended_mem : ∀ x, IsEnded calls x → x ∈ sessionsOf calls x.bucket
  /-- A hot bucket has no lease. -/
  hot : ∀ b, (orDefault s b).state = .hot → (orDefault s b).archiveOwnerExpiresAt = none
  /-- The owner of a lease is the last session issued, and has not been ended. -/
  owner : ∀ b tok t, (orDefault s b).archiveOwnerToken = some tok →
    (orDefault s b).archiveOwnerExpiresAt = some t →
    (sessionsOf calls b).getLast? = some ⟨b, tok, (orDefault s b).generation⟩ ∧
      ¬ IsEnded calls ⟨b, tok, (orDefault s b).generation⟩ ∧
      leaseOf calls ⟨b, tok, (orDefault s b).generation⟩ = some t

theorem Fenced.init : Fenced [] (∅ : Store) where
  increasing := fun _ => .nil
  le := fun _ _ h => by cases h
  ended_mem := fun _ h => by obtain ⟨_, h, _⟩ := h; cases h
  hot := fun _ _ => rfl
  owner := fun _ _ _ h => by cases h

namespace Fenced

variable {calls : List (Call Env)} {s s' : Store} {c : Call Env}

/-- A session that holds its entry is the last one issued, not ended, within its lease. -/
theorem of_held (h : Fenced calls s) {x : ArchiveSession} {now : Instant}
    (held : (orDefault s x.bucket).Held x now) :
    (sessionsOf calls x.bucket).getLast? = some x ∧ ¬ IsEnded calls x ∧
      ∃ t, leaseOf calls x = some t ∧ now < t := by
  obtain ⟨hg, htok, t, ht, hlt⟩ := held
  obtain ⟨h₁, h₂, h₃⟩ := h.owner _ _ _ htok ht
  rw [hg] at h₁ h₂ h₃
  exact ⟨h₁, h₂, t, h₃, hlt⟩

/-- A call that issues, ends and grants nothing, and leaves generations, owners and leases. -/
theorem quiet (h : Fenced calls s) (hi : c.issued = none) (he : c.ended = none)
    (hg : granted c = none)
    (same : ∀ b, (orDefault s' b).generation = (orDefault s b).generation ∧
      (orDefault s' b).archiveOwnerToken = (orDefault s b).archiveOwnerToken ∧
      (orDefault s' b).archiveOwnerExpiresAt = (orDefault s b).archiveOwnerExpiresAt ∧
      ((orDefault s' b).state = .hot → (orDefault s b).state = .hot)) :
    Fenced (calls ++ [c]) s' := by
  have ended : ∀ x, IsEnded (calls ++ [c]) x ↔ IsEnded calls x := fun x => by
    rw [isEnded_snoc, he]; simp
  refine ⟨fun b => ?_, fun b x hx => ?_, fun x hx => ?_, fun b hb => ?_, fun b tok t htok ht => ?_⟩
  · rw [sessionsOf_snoc_none hi]; exact h.increasing b
  · rw [sessionsOf_snoc_none hi] at hx
    rw [(same b).1]; exact h.le b x hx
  · rw [sessionsOf_snoc_none hi]; exact h.ended_mem x ((ended x).mp hx)
  · rw [(same b).2.2.1]; exact h.hot b ((same b).2.2.2 hb)
  · rw [(same b).2.1] at htok
    rw [(same b).2.2.1] at ht
    rw [sessionsOf_snoc_none hi, (same b).1, ended, leaseOf_snoc_none hg]
    exact h.owner b tok t htok ht

/-- A call that changes one entry, but not its generation, owner and lease. -/
theorem quietAt (h : Fenced calls s) {b : BucketId} {e : Entry} (hi : c.issued = none)
    (he : c.ended = none) (hg : granted c = none)
    (hgen : e.generation = (orDefault s b).generation)
    (htok : e.archiveOwnerToken = (orDefault s b).archiveOwnerToken)
    (ht : e.archiveOwnerExpiresAt = (orDefault s b).archiveOwnerExpiresAt)
    (hst : e.state = .hot → (orDefault s b).state = .hot) :
    Fenced (calls ++ [c]) (s.insert b e) := by
  refine h.quiet hi he hg fun b' => ?_
  rw [orDefault_insert]
  split
  · rename_i e'; subst e'; exact ⟨hgen, htok, ht, hst⟩
  · exact ⟨rfl, rfl, rfl, id⟩

/-- A call that issues the session of a new generation and grants it a lease. -/
theorem issue (h : Fenced calls s) {b : BucketId} {tok : String} {t : Instant} {e : Entry}
    (hi : c.issued = some ⟨b, tok, (orDefault s b).generation + 1⟩) (he : c.ended = none)
    (hg : granted c = some (⟨b, tok, (orDefault s b).generation + 1⟩, t))
    (hgen : e.generation = (orDefault s b).generation + 1) (htok : e.archiveOwnerToken = some tok)
    (ht : e.archiveOwnerExpiresAt = some t) (hst : e.state ≠ .hot) :
    Fenced (calls ++ [c]) (s.insert b e) := by
  set new : ArchiveSession := ⟨b, tok, (orDefault s b).generation + 1⟩ with hnew
  have ended : ∀ x, IsEnded (calls ++ [c]) x ↔ IsEnded calls x := fun x => by
    rw [isEnded_snoc, he]; simp
  -- the new session is of a generation to come, so it has not been ended
  have fresh : ¬ IsEnded calls new := fun hx => by
    have := h.le b _ (h.ended_mem _ hx)
    exact absurd this (Nat.not_succ_le_self _)
  refine ⟨fun b' => ?_, fun b' x hx => ?_, fun x hx => ?_, fun b' hb' => ?_,
    fun b' tok' t' htok' ht' => ?_⟩
  · rw [sessionsOf_snoc_some hi]
    split
    case isTrue e' =>
        subst e'
        refine List.pairwise_append.mpr ⟨h.increasing b, List.pairwise_singleton _ _, ?_⟩
        intro x hx y hy
        rw [List.mem_singleton.mp hy]
        exact Nat.lt_succ_of_le (h.le b x hx)
    case isFalse => exact h.increasing b'
  · rw [sessionsOf_snoc_some hi] at hx
    rw [orDefault_insert]
    by_cases e' : b' = b
    · subst e'
      rw [if_pos rfl] at hx ⊢
      rw [hgen]
      rcases List.mem_append.mp hx with hx | hx
      · exact (h.le b' x hx).trans (Nat.le_succ _)
      · rw [List.mem_singleton.mp hx]
    · rw [if_neg (fun e'' => e' e''.symm)] at hx
      rw [if_neg e']; exact h.le b' x hx
  · rw [sessionsOf_snoc_some hi]
    have hx' := h.ended_mem x ((ended x).mp hx)
    split
    · exact List.mem_append_left _ hx'
    · exact hx'
  · rw [orDefault_insert] at hb' ⊢
    by_cases e' : b' = b
    · rw [if_pos e'] at hb'; exact absurd hb' hst
    · rw [if_neg e'] at hb' ⊢; exact h.hot b' hb'
  · by_cases e' : b' = b
    · subst e'
      have hat : orDefault (s.insert b' e) b' = e := by rw [orDefault_insert, if_pos rfl]
      rw [hat] at htok' ht' ⊢
      obtain rfl := Option.some.inj (htok.symm.trans htok')
      obtain rfl := Option.some.inj (ht.symm.trans ht')
      rw [hgen, ended, sessionsOf_snoc_some hi, leaseOf_snoc_some hg, if_pos rfl, if_pos rfl]
      exact ⟨List.getLast?_concat .., fresh, rfl⟩
    · have hat : orDefault (s.insert b e) b' = orDefault s b' := by
        rw [orDefault_insert, if_neg e']
      rw [hat] at htok' ht' ⊢
      rw [ended, sessionsOf_snoc_some hi, leaseOf_snoc_some hg, if_neg (fun e'' => e' e''.symm),
        if_neg (fun e'' => e' (congrArg ArchiveSession.bucket e'').symm)]
      exact h.owner b' tok' t' htok' ht'

/-- A call that extends the lease of the session that holds the entry. -/
theorem grant (h : Fenced calls s) {x : ArchiveSession} {now t : Instant} {e : Entry}
    (held : (orDefault s x.bucket).Held x now) (hi : c.issued = none) (he : c.ended = none)
    (hg : granted c = some (x, t)) (hgen : e.generation = (orDefault s x.bucket).generation)
    (htok : e.archiveOwnerToken = (orDefault s x.bucket).archiveOwnerToken)
    (ht : e.archiveOwnerExpiresAt = some t) (hst : e.state = (orDefault s x.bucket).state) :
    Fenced (calls ++ [c]) (s.insert x.bucket e) := by
  have ended : ∀ x, IsEnded (calls ++ [c]) x ↔ IsEnded calls x := fun x => by
    rw [isEnded_snoc, he]; simp
  obtain ⟨hlast, hend, -⟩ := h.of_held held
  refine ⟨fun b => ?_, fun b y hy => ?_, fun y hy => ?_, fun b hb => ?_,
    fun b tok' t' htok' ht' => ?_⟩
  · rw [sessionsOf_snoc_none hi]; exact h.increasing b
  · rw [sessionsOf_snoc_none hi] at hy
    rw [orDefault_insert]
    split
    · rename_i e'; subst e'; rw [hgen]; exact h.le _ y hy
    · exact h.le b y hy
  · rw [sessionsOf_snoc_none hi]; exact h.ended_mem y ((ended y).mp hy)
  · -- a hot bucket has no lease, so nobody holds it
    rw [orDefault_insert] at hb ⊢
    by_cases e' : b = x.bucket
    · obtain ⟨t₀, ht₀, -⟩ := held.lease
      rw [if_pos e', hst] at hb
      rw [h.hot _ hb] at ht₀; cases ht₀
    · rw [if_neg e'] at hb ⊢; exact h.hot b hb
  · by_cases e' : b = x.bucket
    · subst e'
      have hat : orDefault (s.insert x.bucket e) x.bucket = e := by
        rw [orDefault_insert, if_pos rfl]
      rw [hat] at htok' ht' ⊢
      obtain rfl : t = t' := Option.some.inj (ht.symm.trans ht')
      obtain rfl : x.ownerToken = tok' :=
        Option.some.inj (held.token.symm.trans (htok.symm.trans htok'))
      rw [hgen, held.generation, ended, sessionsOf_snoc_none hi, leaseOf_snoc_some hg]
      exact ⟨hlast, hend, if_pos rfl⟩
    · have hat : orDefault (s.insert x.bucket e) b = orDefault s b := by
        rw [orDefault_insert, if_neg e']
      rw [hat] at htok' ht' ⊢
      rw [ended, sessionsOf_snoc_none hi, leaseOf_snoc_some hg,
        if_neg (fun e'' => e' (congrArg ArchiveSession.bucket e'').symm)]
      exact h.owner b tok' t' htok' ht'

/-- A call that leaves an entry without a lease: it ends the session that holds the entry, or it
closes the fence of a hot bucket and issues no session. -/
theorem release (h : Fenced calls s) {b : BucketId} {e : Entry} (hi : c.issued = none)
    (he : ∀ x, c.ended = some x → x ∈ sessionsOf calls b ∧ x.bucket = b) (hg : granted c = none)
    (hgen : (orDefault s b).generation ≤ e.generation) (ht : e.archiveOwnerExpiresAt = none) :
    Fenced (calls ++ [c]) (s.insert b e) := by
  refine ⟨fun b' => ?_, fun b' y hy => ?_, fun y hy => ?_, fun b' hb' => ?_,
    fun b' tok' t' htok' ht' => ?_⟩
  · rw [sessionsOf_snoc_none hi]; exact h.increasing b'
  · rw [sessionsOf_snoc_none hi] at hy
    rw [orDefault_insert]
    split
    · rename_i e'; subst e'; exact (h.le _ y hy).trans hgen
    · exact h.le b' y hy
  · rw [sessionsOf_snoc_none hi]
    rcases isEnded_snoc.mp hy with hy | hy
    · exact h.ended_mem y hy
    · obtain ⟨h₁, h₂⟩ := he y hy
      rw [h₂]; exact h₁
  · rw [orDefault_insert] at hb' ⊢
    split at hb'
    · rename_i e'; rw [if_pos e']; exact ht
    · rename_i e'; rw [if_neg e']; exact h.hot b' hb'
  · rw [orDefault_insert] at ht'
    by_cases e' : b' = b
    · rw [if_pos e', ht] at ht'; cases ht'
    · have hat : orDefault (s.insert b e) b' = orDefault s b' := by
        rw [orDefault_insert, if_neg e']
      rw [if_neg e'] at ht'
      rw [hat] at htok' ⊢
      have hend : ∀ x : ArchiveSession, x.bucket = b' →
          (IsEnded (calls ++ [c]) x ↔ IsEnded calls x) := fun x hx => by
        rw [isEnded_snoc, or_iff_left]
        exact fun hc => e' (hx.symm.trans (he x hc).2)
      rw [hend _ rfl, sessionsOf_snoc_none hi, leaseOf_snoc_none hg]
      exact h.owner b' tok' t' htok' ht'

/-- **One call keeps the invariant.** -/
theorem step (h : Fenced calls s) (hs : Call.Step exec s c s') : Fenced (calls ++ [c]) s' := by
  obtain ⟨env, q, r⟩ := c
  have heff := exec_effect env q s
  rw [show exec env q s = (r, s') from hs] at heff
  cases heff with
  | look hq _ hi same =>
      refine h.quiet hi (Call.ended_eq_none hq) (granted_eq_none hq hi) fun b => ?_
      rw [same b]; exact ⟨rfl, rfl, rfl, id⟩
  | refused =>
      exact h.quiet StoreRequest.issued?_error StoreRequest.ended?_error granted_error fun b =>
        ⟨rfl, rfl, rfl, id⟩
  | append => exact h.quietAt rfl rfl rfl rfl rfl rfl id
  | claimArchive => exact h.issue rfl rfl rfl rfl rfl rfl (by simp)
  | claimCleanup hp => exact h.issue rfl rfl rfl rfl rfl rfl (by simp [hp])
  | beginArchive => exact h.issue rfl rfl rfl rfl rfl rfl (by simp [Entry.fence])
  | fence hp =>
      exact h.release rfl (fun _ hx => by cases hx) rfl (Nat.le_succ _) (h.hot _ hp)
  | renew held => exact h.grant held rfl rfl rfl rfl rfl rfl rfl
  | deferCleanup hp held => exact h.grant held rfl rfl rfl rfl rfl rfl rfl
  | deferArchive hp held =>
      refine h.release rfl (fun x hx => ?_) rfl le_rfl rfl
      obtain rfl := Option.some.inj hx
      exact ⟨List.mem_of_getLast? (h.of_held held).1, rfl⟩
  | abort hp held =>
      refine h.release rfl (fun x hx => ?_) rfl le_rfl rfl
      obtain rfl := Option.some.inj hx
      exact ⟨List.mem_of_getLast? (h.of_held held).1, rfl⟩
  | snapshot => exact h.quietAt rfl rfl rfl rfl rfl rfl id
  | publish | deleteHot => exact h.quietAt rfl rfl rfl rfl rfl rfl (fun hc => by cases hc)

theorem run {calls : List (Call Env)} {s : Store} (hr : Run (Call.Step exec) (∅ : Store) calls s) :
    Fenced calls s :=
  Run.rec_last (P := Fenced) init (fun _ _ _ _ _ ih hs => ih.step hs) hr

end Fenced

/-- **Fencing of archive sessions.**  After any calls from the empty store, the sessions issued
for a bucket have strictly increasing generations; and a further operation on a session succeeds
only if the session is the last one issued for its bucket, has not been ended, and the clock is
before its deadline; otherwise it returns `StaleArchiveSession`, or `OperationFailed` for a
duration without a deadline, and changes nothing. -/
theorem session_fencing {calls : List (Call Env)} {s : Store}
    (hr : Run (Call.Step exec) (∅ : Store) calls s) :
    (∀ b, (sessionsOf calls b).Pairwise fun x y => x.generation < y.generation) ∧
      ∀ {c : Call Env} {s' : Store} {x : ArchiveSession}, Call.Step exec s c s' →
        c.request.session? = some x →
        (∀ v, c.reply = .ok v → (sessionsOf calls x.bucket).getLast? = some x ∧
          ¬ IsEnded calls x ∧ ∃ t, leaseOf calls x = some t ∧ checkedAt c < t) ∧
        ∀ e, c.reply = .error e → s' = s ∧
          (e = .staleArchiveSession ∨ e = .operationFailed ∧
            ∃ d ∈ c.request.duration?, leaseDeadline c.env.first d = .error .operationFailed) := by
  have h := Fenced.run hr
  refine ⟨h.increasing, fun {c s' x} hs hx => ?_⟩
  obtain ⟨env, q, r⟩ := c
  have heff := exec_effect env q s
  rw [show exec env q s = (r, s') from hs] at heff
  cases heff with
  | look hq => rw [hx] at hq; cases hq
  | append | claimArchive | claimCleanup | beginArchive | fence => cases hx
  | refused _ he =>
      refine ⟨fun v hv => (by cases hv), fun e he' => ⟨rfl, ?_⟩⟩
      obtain rfl := Except.error.inj he'
      exact he
  | renew held | deferCleanup _ held | deferArchive _ held | snapshot _ held | publish _ held
  | deleteHot _ held | abort _ held =>
      obtain rfl := Option.some.inj hx
      exact ⟨fun _ _ => h.of_held held, fun e he => by cases he⟩

/-- A claim at reading 0 with a lease of 10, and its session's snapshot at reading 5. -/
theorem session_fencing_of_snapshot :
    let q : StoreRequest := .claimArchive Sample.bucket 10
    let calls := [Call.of exec ⟨0, 0, "a"⟩ q (∅ : Store)]
    let x : ArchiveSession := ⟨Sample.bucket, "a", 1⟩
    (exec ⟨5, 5, "b"⟩ (.snapshot x) (exec ⟨0, 0, "a"⟩ q ∅).2).1 = .ok [] ∧
      (sessionsOf calls x.bucket).getLast? = some x ∧ ¬ IsEnded calls x ∧
      ∃ t, leaseOf calls x = some t ∧ 5 < t := by
  intro q calls x
  have hr : Run (Call.Step exec) (∅ : Store) calls (exec ⟨0, 0, "a"⟩ q ∅).2 :=
    .one (Call.step_of ..)
  have hok : (exec ⟨5, 5, "b"⟩ (.snapshot x) (exec ⟨0, 0, "a"⟩ q ∅).2).1 = .ok [] := by rfl
  exact ⟨hok, ((session_fencing hr).2 (Call.step_of exec ⟨5, 5, "b"⟩ (.snapshot x) _) rfl).1 _ hok⟩

end InMemory
end Pulpitum
