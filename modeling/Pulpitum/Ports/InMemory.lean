import Mathlib
import Pulpitum.Ports.Storage

/-!
# Ports — In memory

`InMemoryDurableBucketStore`: one map of bucket entries behind one lock.  An operation holds the
lock from its first look at the map to its end, so it is one step; its clock readings and the
token a claim draws are arguments.

* `exec_effect`: **what an operation can do**, to the entry of its bucket and to no other, with the
  reply it then gives.
-/

namespace Pulpitum

/-- A reading of the monotonic clock, in nanoseconds. -/
abbrev Instant := ℕ

namespace Instant

/-- The last reading: seconds are an `i64`. -/
def max : Instant := 2 ^ 63 * 1000000000 - 1

/-- `checked_add`. -/
def checkedAdd (t : Instant) (d : Duration) : Option Instant :=
  if t + d ≤ max then some (t + d) else none

end Instant

/-- `checked_add(1)` on a generation, a `u64`. -/
def nextGeneration (generation : ℕ) : Option ℕ :=
  if generation + 1 < 2 ^ 64 then some (generation + 1) else none

namespace InMemory

/-- `DurableBucketEntry`. -/
@[ext]
structure Entry where
  state : BucketState
  generation : ℕ
  archiveOwnerToken : Option String
  archiveOwnerExpiresAt : Option Instant
  nextAttemptAt : Option Instant
  records : List Record
deriving DecidableEq

/-- `DurableBucketEntry::default`. -/
def Entry.default : Entry where
  state := .hot
  generation := 0
  archiveOwnerToken := none
  archiveOwnerExpiresAt := none
  nextAttemptAt := none
  records := []

/-- `InMemoryDurableBucketStore`. -/
abbrev Store := AList fun _ : BucketId => Entry

/-- `entry(bucket).or_default()`. -/
def orDefault (s : Store) (bucket : BucketId) : Entry := (s.lookup bucket).getD .default

/-- What an operation reads from its surroundings: the clock, once or twice, and a fresh token. -/
structure Env where
  first : Instant
  second : Instant
  token : String

/-- `attempt_due`. -/
def attemptDue (entry : Entry) (now : Instant) : Bool :=
  match entry.nextAttemptAt with
  | none => true
  | some retryAt => retryAt ≤ now

/-- `lease_expired`. -/
def leaseExpired (entry : Entry) (now : Instant) : Bool :=
  match entry.archiveOwnerExpiresAt with
  | none => true
  | some expiresAt => expiresAt ≤ now

/-- `lease_deadline`, at the reading `now`. -/
def leaseDeadline (now : Instant) (duration : Duration) : Except DurableBucketStoreError Instant :=
  if duration = 0 then .error .operationFailed
  else match Instant.checkedAdd now duration with
    | some t => .ok t
    | none => .error .operationFailed

/-- `validate_active_session`, at the reading `now`. -/
def validateActiveSession (entry : Entry) (session : ArchiveSession) (now : Instant) :
    Except DurableBucketStoreError Unit :=
  if entry.generation ≠ session.generation ∨ entry.archiveOwnerToken ≠ some session.ownerToken ∨
      leaseExpired entry now then .error .staleArchiveSession
  else .ok ()

/-- `validate_archive_session`, at the reading `now`. -/
def validateArchiveSession (entry : Entry) (session : ArchiveSession) (expected : BucketState)
    (now : Instant) : Except DurableBucketStoreError Unit :=
  if entry.state ≠ expected then .error .staleArchiveSession
  else validateActiveSession entry session now

/-- `archived` with its hot rows not yet deleted. -/
def cleanupPending : BucketState → Bool
  | .archived _ false => true
  | _ => false

/-- The checks of `defer_cleanup`, at the reading `now`. -/
def validateCleanupSession (entry : Entry) (session : ArchiveSession) (now : Instant) :
    Except DurableBucketStoreError Unit := do
  validateActiveSession entry session now
  if !cleanupPending entry.state then throw .staleArchiveSession

/-! ### The operations -/

/-- `append`. -/
def append (bucket : BucketId) (record : Record) (s : Store) :
    Except DurableBucketStoreError Unit × Store :=
  let entry := orDefault s bucket
  if entry.state ≠ .hot then (.error (.bucketReadOnly entry.state), s.insert bucket entry)
  else (.ok (), s.insert bucket { entry with records := sortByKey (entry.records ++ [record]) })

/-- `state`. -/
def state (bucket : BucketId) (s : Store) : Except DurableBucketStoreError BucketState × Store :=
  (.ok (((s.lookup bucket).map Entry.state).getD .hot), s)

/-- The work that one entry offers to `discover_archive_work`. -/
def workOf (scan : ArchiveScan) (now : Instant) (bucket : BucketId) (entry : Entry) :
    Option ArchiveWork :=
  if !attemptDue entry now then none
  else match entry.state with
    | .archived _ false => if leaseExpired entry now then some (.cleanup bucket) else none
    | .hot => if bucket.endAt ≤ scan.eligibleBefore then some (.cutover bucket) else none
    | .archiving =>
        if bucket.endAt ≤ scan.eligibleBefore ∧ leaseExpired entry now then some (.cutover bucket)
        else none
    | .archived _ true => none

/-- `discover_archive_work`. -/
def discoverArchiveWork (env : Env) (scan : ArchiveScan) (s : Store) :
    Except DurableBucketStoreError (List ArchiveWork) × Store :=
  let found := s.entries.filterMap fun e => workOf scan env.first e.1 e.2
  let sorted (works : List ArchiveWork) := works.insertionSort fun l r => l.bucket ≤ r.bucket
  let cleanup := sorted (found.filter fun w => w = .cleanup w.bucket)
  let cutover := sorted (found.filter fun w => w = .cutover w.bucket)
  (.ok ((cleanup ++ cutover).take scan.limit), s)

/-- `claim_archive`. -/
def claimArchive (env : Env) (bucket : BucketId) (leaseFor : Duration) (s : Store) :
    Except DurableBucketStoreError (Option ArchiveSession) × Store :=
  match leaseDeadline env.second leaseFor with
  | .error e => (.error e, s)
  | .ok expiresAt =>
      let entry := orDefault s bucket
      if attemptDue entry env.first ∧ (entry.state = .hot ∨
          (entry.state = .archiving ∧ leaseExpired entry env.first)) then
        match nextGeneration entry.generation with
        | none => (.error .operationFailed, s.insert bucket entry)
        | some generation =>
            (.ok (some ⟨bucket, env.token, generation⟩),
              s.insert bucket
                { entry with
                  state := .archiving
                  generation := generation
                  archiveOwnerToken := some env.token
                  archiveOwnerExpiresAt := some expiresAt
                  nextAttemptAt := none })
      else (.ok none, s.insert bucket entry)

/-- `claim_cleanup`. -/
def claimCleanup (env : Env) (bucket : BucketId) (leaseFor : Duration) (s : Store) :
    Except DurableBucketStoreError (Option ArchiveSession) × Store :=
  match leaseDeadline env.second leaseFor with
  | .error e => (.error e, s)
  | .ok expiresAt =>
      match s.lookup bucket with
      | none => (.ok none, s)
      | some entry =>
          if cleanupPending entry.state ∧ attemptDue entry env.first ∧
              leaseExpired entry env.first then
            match nextGeneration entry.generation with
            | none => (.error .operationFailed, s)
            | some generation =>
                (.ok (some ⟨bucket, env.token, generation⟩),
                  s.insert bucket
                    { entry with
                      generation := generation
                      archiveOwnerToken := some env.token
                      archiveOwnerExpiresAt := some expiresAt
                      nextAttemptAt := none })
          else (.ok none, s)

/-- The shape of the operations on a session: the entry is looked up, checked, and changed. -/
def withSession {α : Type} (session : ArchiveSession)
    (op : Entry → Except DurableBucketStoreError (α × Entry)) (s : Store) :
    Except DurableBucketStoreError α × Store :=
  match s.lookup session.bucket with
  | none => (.error .staleArchiveSession, s)
  | some entry =>
      match op entry with
      | .error e => (.error e, s)
      | .ok (a, entry') => (.ok a, s.insert session.bucket entry')

/-- `renew_archive_lease`. -/
def renewArchiveLease (env : Env) (session : ArchiveSession) (leaseFor : Duration) (s : Store) :
    Except DurableBucketStoreError Unit × Store :=
  match leaseDeadline env.first leaseFor with
  | .error e => (.error e, s)
  | .ok expiresAt =>
      s |> withSession session fun entry => do
        validateActiveSession entry session env.second
        return ((), { entry with archiveOwnerExpiresAt := some expiresAt })

/-- `defer_archive`. -/
def deferArchive (env : Env) (session : ArchiveSession) (retryAfter : Duration) (s : Store) :
    Except DurableBucketStoreError Unit × Store :=
  match leaseDeadline env.first retryAfter with
  | .error e => (.error e, s)
  | .ok retryAt =>
      s |> withSession session fun entry => do
        validateArchiveSession entry session .archiving env.second
        return ((), { entry with
          state := .hot
          archiveOwnerToken := none
          archiveOwnerExpiresAt := none
          nextAttemptAt := some retryAt })

/-- `defer_cleanup`. -/
def deferCleanup (env : Env) (session : ArchiveSession) (retryAfter : Duration) (s : Store) :
    Except DurableBucketStoreError Unit × Store :=
  match leaseDeadline env.first retryAfter with
  | .error e => (.error e, s)
  | .ok retryAt =>
      s |> withSession session fun entry => do
        validateCleanupSession entry session env.second
        return ((), { entry with
          archiveOwnerExpiresAt := some retryAt
          nextAttemptAt := some retryAt })

/-- `read_range`. -/
def readRange (bucket : BucketId) (range : TimeRange) (after : Option Cursor) (limit : ℕ)
    (s : Store) : Except DurableBucketStoreError DurableBucketRead × Store :=
  match s.lookup bucket with
  | some { state := .archived objectKey _, .. } => (.ok (.archive objectKey), s)
  | some { records, .. } =>
      (.ok (.hot (((records.filter fun r => range.contains r.eventTime).filter fun r =>
        isAfter after r).take limit)), s)
  | none => (.ok (.hot []), s)

/-- The lease of `begin_archive`: 300 seconds. -/
def beginLease : Duration := 300000000000

/-- What `begin_archive` does to the entry before it computes the lease deadline. -/
def Entry.fence (entry : Entry) (token : String) (generation : ℕ) : Entry :=
  { entry with state := .archiving, generation := generation, archiveOwnerToken := some token }

/-- `begin_archive`: the lease deadline is computed after the fence is closed. -/
def beginArchive (env : Env) (bucket : BucketId) (s : Store) :
    Except DurableBucketStoreError ArchiveSession × Store :=
  if (orDefault s bucket).state ≠ .hot then
    (.error (.archiveNotAllowed (orDefault s bucket).state),
      s.insert bucket (orDefault s bucket))
  else match nextGeneration (orDefault s bucket).generation with
    | none => (.error .operationFailed, s.insert bucket (orDefault s bucket))
    | some generation =>
        match leaseDeadline env.first beginLease with
        | .error e => (.error e, s.insert bucket ((orDefault s bucket).fence env.token generation))
        | .ok expiresAt =>
            (.ok ⟨bucket, env.token, generation⟩,
              s.insert bucket
                { (orDefault s bucket).fence env.token generation with
                  archiveOwnerExpiresAt := some expiresAt
                  nextAttemptAt := none })

/-- `snapshot`. -/
def snapshot (env : Env) (session : ArchiveSession) (s : Store) :
    Except DurableBucketStoreError (List Record) × Store :=
  s |> withSession session fun entry => do
    validateArchiveSession entry session .archiving env.first
    return (entry.records, entry)

/-- `publish_archive`. -/
def publishArchive (env : Env) (session : ArchiveSession) (objectKey : String) (s : Store) :
    Except DurableBucketStoreError Unit × Store :=
  s |> withSession session fun entry => do
    validateArchiveSession entry session .archiving env.first
    return ((), { entry with state := .archived objectKey false })

/-- `delete_hot_bucket`. -/
def deleteHotBucket (env : Env) (session : ArchiveSession) (s : Store) :
    Except DurableBucketStoreError Unit × Store :=
  s |> withSession session fun entry =>
    match entry.state with
    | .archived objectKey false => do
        validateActiveSession entry session env.first
        return ((), { entry with records := [], state := .archived objectKey true })
    | _ => throw .staleArchiveSession

/-- `abort_archive`. -/
def abortArchive (env : Env) (session : ArchiveSession) (s : Store) :
    Except DurableBucketStoreError Unit × Store :=
  s |> withSession session fun entry => do
    validateArchiveSession entry session .archiving env.first
    return ((), { entry with
      state := .hot
      archiveOwnerToken := none
      archiveOwnerExpiresAt := none
      nextAttemptAt := none })

/-- One operation of the store. -/
def exec (env : Env) : (q : StoreRequest) → Store → q.Reply × Store
  | .append bucket record => append bucket record
  | .state bucket => state bucket
  | .discoverArchiveWork scan => discoverArchiveWork env scan
  | .claimArchive bucket leaseFor => claimArchive env bucket leaseFor
  | .claimCleanup bucket leaseFor => claimCleanup env bucket leaseFor
  | .renewArchiveLease session leaseFor => renewArchiveLease env session leaseFor
  | .deferArchive session retryAfter => deferArchive env session retryAfter
  | .deferCleanup session retryAfter => deferCleanup env session retryAfter
  | .readRange bucket range after limit => readRange bucket range after limit
  | .beginArchive bucket => beginArchive env bucket
  | .snapshot session => snapshot env session
  | .publishArchive session objectKey => publishArchive env session objectKey
  | .deleteHotBucket session => deleteHotBucket env session
  | .abortArchive session => abortArchive env session

/-! ### What an operation can do -/

@[simp]
theorem orDefault_insert (s : Store) (b b' : BucketId) (e : Entry) :
    orDefault (s.insert b e) b' = if b' = b then e else orDefault s b' := by
  unfold orDefault
  by_cases h : b' = b
  · subst h; simp
  · simp [h, AList.lookup_insert_ne h]

theorem orDefault_of_lookup {s : Store} {b : BucketId} {e : Entry} (h : s.lookup b = some e) :
    orDefault s b = e := by
  rw [orDefault, h]; rfl

/-- The session holds the entry at the reading `now`: its generation and token are the entry's,
and the lease runs beyond `now`. -/
structure Entry.Held (entry : Entry) (session : ArchiveSession) (now : Instant) : Prop where
  generation : entry.generation = session.generation
  token : entry.archiveOwnerToken = some session.ownerToken
  lease : ∃ x, entry.archiveOwnerExpiresAt = some x ∧ now < x

theorem leaseExpired_eq_false {entry : Entry} {now : Instant} :
    leaseExpired entry now = false ↔ ∃ x, entry.archiveOwnerExpiresAt = some x ∧ now < x := by
  unfold leaseExpired
  cases entry.archiveOwnerExpiresAt with
  | none => simp
  | some x => simp

theorem validateActiveSession_cases (entry : Entry) (session : ArchiveSession) (now : Instant) :
    (validateActiveSession entry session now = .ok () ∧ entry.Held session now) ∨
      validateActiveSession entry session now = .error .staleArchiveSession := by
  unfold validateActiveSession
  split
  · exact .inr rfl
  · rename_i h
    rw [not_or, not_or, not_not, not_not, Bool.not_eq_true] at h
    exact .inl ⟨rfl, h.1, h.2.1, leaseExpired_eq_false.mp h.2.2⟩

theorem Entry.Held.validate {e : Entry} {session : ArchiveSession} {now : Instant}
    (h : e.Held session now) : validateActiveSession e session now = .ok () := by
  have hl : leaseExpired e now = false := leaseExpired_eq_false.mpr h.lease
  unfold validateActiveSession
  rw [if_neg]
  simp [h.generation, h.token, hl]

theorem Entry.Held.validateArchive {e : Entry} {session : ArchiveSession} {now : Instant}
    (h : e.Held session now) (hs : e.state = .archiving) :
    validateArchiveSession e session .archiving now = .ok () := by
  unfold validateArchiveSession
  rw [if_neg (by simp [hs])]
  exact h.validate

theorem validateArchiveSession_cases (entry : Entry) (session : ArchiveSession)
    (expected : BucketState) (now : Instant) :
    (validateArchiveSession entry session expected now = .ok () ∧ entry.state = expected ∧
        entry.Held session now) ∨
      validateArchiveSession entry session expected now = .error .staleArchiveSession := by
  unfold validateArchiveSession
  split
  · exact .inr rfl
  · rename_i h
    rcases validateActiveSession_cases entry session now with ⟨h₁, h₂⟩ | h₁
    · exact .inl ⟨h₁, not_not.mp h, h₂⟩
    · exact .inr h₁

theorem cleanupPending_iff {st : BucketState} :
    cleanupPending st = true ↔ ∃ key, st = .archived key false := by
  cases st with
  | hot | archiving => simp [cleanupPending]
  | archived key deleted => cases deleted <;> simp [cleanupPending]

theorem validateCleanupSession_cases (entry : Entry) (session : ArchiveSession) (now : Instant) :
    (validateCleanupSession entry session now = .ok () ∧
        (∃ key, entry.state = .archived key false) ∧ entry.Held session now) ∨
      validateCleanupSession entry session now = .error .staleArchiveSession := by
  unfold validateCleanupSession
  rcases validateActiveSession_cases entry session now with ⟨h, held⟩ | h <;> rw [h]
  · by_cases hp : cleanupPending entry.state = true
    · rw [hp]; exact .inl ⟨rfl, cleanupPending_iff.mp hp, held⟩
    · rw [Bool.not_eq_true] at hp
      rw [hp]; exact .inr rfl
  · exact .inr rfl

theorem Entry.Held.validateCleanup {e : Entry} {session : ArchiveSession} {now : Instant}
    {key : String} (h : e.Held session now) (hs : e.state = .archived key false) :
    validateCleanupSession e session now = .ok () := by
  unfold validateCleanupSession
  rw [h.validate, hs]
  rfl

/-- An operation on a session either fails as its check does, or stores what its check allows. -/
theorem withSession_cases {α : Type} (session : ArchiveSession)
    (op : Entry → Except DurableBucketStoreError (α × Entry)) (s : Store) :
    (∃ e, (e = .staleArchiveSession ∨ ∃ entry, op entry = .error e) ∧
        withSession session op s = (.error e, s)) ∨
      ∃ entry a entry', orDefault s session.bucket = entry ∧ op entry = .ok (a, entry') ∧
        withSession session op s = (.ok a, s.insert session.bucket entry') := by
  unfold withSession
  cases h : s.lookup session.bucket with
  | none => exact .inl ⟨_, .inl rfl, rfl⟩
  | some entry =>
      cases hop : op entry with
      | error e => exact .inl ⟨e, .inr ⟨entry, hop⟩, by simp only [hop]⟩
      | ok p =>
          exact .inr ⟨entry, p.1, p.2, orDefault_of_lookup h, hop, by simp only [hop]⟩

theorem withSession_eq_ok {α : Type} {op : Entry → Except DurableBucketStoreError (α × Entry)}
    {session : ArchiveSession} {s : Store} {e e' : Entry} {a : α}
    (hl : s.lookup session.bucket = some e) (hop : op e = .ok (a, e')) :
    withSession session op s = (.ok a, s.insert session.bucket e') := by
  unfold withSession
  rw [hl]
  dsimp only
  rw [hop]

theorem leaseDeadline_eq_ok {now : Instant} {d : Duration} (hd : d ≠ 0)
    (h : now + d ≤ Instant.max) : leaseDeadline now d = .ok (now + d) := by
  unfold leaseDeadline Instant.checkedAdd
  rw [if_neg hd, if_pos h]

theorem leaseDeadline_eq_error {now : Instant} {d : Duration} (h : ¬ now + d ≤ Instant.max) :
    leaseDeadline now d = .error .operationFailed := by
  unfold leaseDeadline Instant.checkedAdd
  rw [if_neg h]
  exact ite_self _

/-- `lease_deadline` fails on a zero duration or past the last reading. -/
theorem leaseDeadline_cases (now : Instant) (d : Duration) :
    leaseDeadline now d = .ok (now + d) ∨ leaseDeadline now d = .error .operationFailed := by
  unfold leaseDeadline Instant.checkedAdd
  by_cases h : d = 0
  · exact .inr (if_pos h)
  · rw [if_neg h]
    by_cases h' : now + d ≤ Instant.max
    · rw [if_pos h']; exact .inl rfl
    · rw [if_neg h']; exact .inr rfl

theorem nextGeneration_eq_some {g g' : ℕ} (h : nextGeneration g = some g') : g' = g + 1 := by
  unfold nextGeneration at h
  split at h
  · exact (Option.some.inj h).symm
  · cases h

/-- What an operation can do, with the reply it then gives. -/
inductive Effect (env : Env) (s : Store) : (q : StoreRequest) → q.Reply → Store → Prop where
  /-- A read, or an operation that is not allowed in the bucket's state. -/
  | look {q : StoreRequest} {r : q.Reply} {s' : Store} (hq : q.session? = none)
      (ha : q.appended? r = none) (hi : q.issued? r = none)
      (same : ∀ b, orDefault s' b = orDefault s b) : Effect env s q r s'
  /-- An operation on a session that does not hold its bucket, or with a bad duration. -/
  | refused {q : StoreRequest} {session : ArchiveSession} {e : DurableBucketStoreError}
      (hq : q.session? = some session)
      (he : e = .staleArchiveSession ∨ e = .operationFailed ∧
        ∃ d ∈ q.duration?, leaseDeadline env.first d = .error .operationFailed) :
      Effect env s q (.error e) s
  | append {b : BucketId} {r : Record} (hp : (orDefault s b).state = .hot) :
      Effect env s (.append b r) (.ok ())
        (s.insert b
          { orDefault s b with records := sortByKey ((orDefault s b).records ++ [r]) })
  | claimArchive {b : BucketId} {d : Duration}
      (hp : (orDefault s b).state = .hot ∨
        (orDefault s b).state = .archiving ∧ leaseExpired (orDefault s b) env.first = true) :
      Effect env s (.claimArchive b d) (.ok (some ⟨b, env.token, (orDefault s b).generation + 1⟩))
        (s.insert b
          { orDefault s b with
            state := .archiving
            generation := (orDefault s b).generation + 1
            archiveOwnerToken := some env.token
            archiveOwnerExpiresAt := some (env.second + d)
            nextAttemptAt := none })
  | claimCleanup {b : BucketId} {d : Duration} {key : String}
      (hp : (orDefault s b).state = .archived key false)
      (hl : leaseExpired (orDefault s b) env.first = true) :
      Effect env s (.claimCleanup b d) (.ok (some ⟨b, env.token, (orDefault s b).generation + 1⟩))
        (s.insert b
          { orDefault s b with
            generation := (orDefault s b).generation + 1
            archiveOwnerToken := some env.token
            archiveOwnerExpiresAt := some (env.second + d)
            nextAttemptAt := none })
  | beginArchive {b : BucketId} (hp : (orDefault s b).state = .hot) :
      Effect env s (.beginArchive b) (.ok ⟨b, env.token, (orDefault s b).generation + 1⟩)
        (s.insert b
          { (orDefault s b).fence env.token ((orDefault s b).generation + 1) with
            archiveOwnerExpiresAt := some (env.first + beginLease)
            nextAttemptAt := none })
  /-- `begin_archive` closes the fence and then fails to compute the lease deadline. -/
  | fence {b : BucketId} (hp : (orDefault s b).state = .hot) :
      Effect env s (.beginArchive b) (.error .operationFailed)
        (s.insert b ((orDefault s b).fence env.token ((orDefault s b).generation + 1)))
  | renew {session : ArchiveSession} {d : Duration}
      (held : (orDefault s session.bucket).Held session env.second) :
      Effect env s (.renewArchiveLease session d) (.ok ())
        (s.insert session.bucket
          { orDefault s session.bucket with archiveOwnerExpiresAt := some (env.first + d) })
  | deferArchive {session : ArchiveSession} {d : Duration}
      (hp : (orDefault s session.bucket).state = .archiving)
      (held : (orDefault s session.bucket).Held session env.second) :
      Effect env s (.deferArchive session d) (.ok ())
        (s.insert session.bucket
          { orDefault s session.bucket with
            state := .hot
            archiveOwnerToken := none
            archiveOwnerExpiresAt := none
            nextAttemptAt := some (env.first + d) })
  | deferCleanup {session : ArchiveSession} {d : Duration} {key : String}
      (hp : (orDefault s session.bucket).state = .archived key false)
      (held : (orDefault s session.bucket).Held session env.second) :
      Effect env s (.deferCleanup session d) (.ok ())
        (s.insert session.bucket
          { orDefault s session.bucket with
            archiveOwnerExpiresAt := some (env.first + d)
            nextAttemptAt := some (env.first + d) })
  | snapshot {session : ArchiveSession} (hp : (orDefault s session.bucket).state = .archiving)
      (held : (orDefault s session.bucket).Held session env.first) :
      Effect env s (.snapshot session) (.ok (orDefault s session.bucket).records)
        (s.insert session.bucket (orDefault s session.bucket))
  | publish {session : ArchiveSession} {key : String}
      (hp : (orDefault s session.bucket).state = .archiving)
      (held : (orDefault s session.bucket).Held session env.first) :
      Effect env s (.publishArchive session key) (.ok ())
        (s.insert session.bucket
          { orDefault s session.bucket with state := .archived key false })
  | deleteHot {session : ArchiveSession} {key : String}
      (hp : (orDefault s session.bucket).state = .archived key false)
      (held : (orDefault s session.bucket).Held session env.first) :
      Effect env s (.deleteHotBucket session) (.ok ())
        (s.insert session.bucket
          { orDefault s session.bucket with records := [], state := .archived key true })
  | abort {session : ArchiveSession} (hp : (orDefault s session.bucket).state = .archiving)
      (held : (orDefault s session.bucket).Held session env.first) :
      Effect env s (.abortArchive session) (.ok ())
        (s.insert session.bucket
          { orDefault s session.bucket with
            state := .hot
            archiveOwnerToken := none
            archiveOwnerExpiresAt := none
            nextAttemptAt := none })

theorem orDefault_insert_self (s : Store) (b b' : BucketId) :
    orDefault (s.insert b (orDefault s b)) b' = orDefault s b' := by
  rw [orDefault_insert]
  split
  · rename_i h; rw [h]
  · rfl

theorem claimArchive_effect (env : Env) (b : BucketId) (d : Duration) (s : Store) :
    Effect env s (.claimArchive b d) (claimArchive env b d s).1 (claimArchive env b d s).2 := by
  unfold claimArchive
  rcases leaseDeadline_cases env.second d with h | h <;> rw [h]
  · dsimp only
    split
    case isTrue hc =>
        cases hg : nextGeneration (orDefault s b).generation with
        | none => exact .look rfl rfl rfl (orDefault_insert_self s b)
        | some g =>
            obtain rfl := nextGeneration_eq_some hg
            exact .claimArchive hc.2
    case isFalse => exact .look rfl rfl rfl (orDefault_insert_self s b)
  · exact .look rfl rfl rfl fun _ => rfl

theorem claimCleanup_effect (env : Env) (b : BucketId) (d : Duration) (s : Store) :
    Effect env s (.claimCleanup b d) (claimCleanup env b d s).1 (claimCleanup env b d s).2 := by
  unfold claimCleanup
  rcases leaseDeadline_cases env.second d with h | h <;> rw [h]
  · cases hl : s.lookup b with
    | none => exact .look rfl rfl rfl fun _ => rfl
    | some entry =>
        obtain rfl := orDefault_of_lookup hl
        dsimp only
        split
        case isTrue hc =>
            obtain ⟨key, hkey⟩ := cleanupPending_iff.mp hc.1
            cases hg : nextGeneration (orDefault s b).generation with
            | none => exact .look rfl rfl rfl fun _ => rfl
            | some g =>
                obtain rfl := nextGeneration_eq_some hg
                exact .claimCleanup hkey hc.2.2
        case isFalse => exact .look rfl rfl rfl fun _ => rfl
  · exact .look rfl rfl rfl fun _ => rfl

theorem beginArchive_eq_ok {env : Env} {s : Store} {b : BucketId} {g : ℕ} {x : Instant}
    (hst : (orDefault s b).state = .hot) (hg : nextGeneration (orDefault s b).generation = some g)
    (hx : leaseDeadline env.first beginLease = .ok x) :
    beginArchive env b s = (.ok ⟨b, env.token, g⟩, s.insert b
      { (orDefault s b).fence env.token g with
        archiveOwnerExpiresAt := some x
        nextAttemptAt := none }) := by
  unfold beginArchive
  rw [if_neg (not_not.mpr hst), hg, hx]

/-- `begin_archive` without an end of the lease leaves the fence. -/
theorem beginArchive_eq_fence {env : Env} {s : Store} {b : BucketId} {g : ℕ}
    {e : DurableBucketStoreError} (hst : (orDefault s b).state = .hot)
    (hg : nextGeneration (orDefault s b).generation = some g)
    (hx : leaseDeadline env.first beginLease = .error e) :
    beginArchive env b s = (.error e, s.insert b ((orDefault s b).fence env.token g)) := by
  unfold beginArchive
  rw [if_neg (not_not.mpr hst), hg, hx]

theorem beginArchive_effect (env : Env) (b : BucketId) (s : Store) :
    Effect env s (.beginArchive b) (beginArchive env b s).1 (beginArchive env b s).2 := by
  unfold beginArchive
  split
  case isTrue => exact .look rfl rfl rfl (orDefault_insert_self s b)
  case isFalse hc =>
      cases hg : nextGeneration (orDefault s b).generation with
      | none => exact .look rfl rfl rfl (orDefault_insert_self s b)
      | some g =>
          obtain rfl := nextGeneration_eq_some hg
          rcases leaseDeadline_cases env.first beginLease with h | h <;> rw [h]
          · exact .beginArchive (not_not.mp hc)
          · exact .fence (not_not.mp hc)

/-- An operation that checks the session and then changes the entry fails as the check does. -/
theorem withSession_check {α : Type} (session : ArchiveSession)
    {check : Entry → Except DurableBucketStoreError Unit} (change : Entry → α × Entry) (s : Store)
    {P : Entry → Prop}
    (hc : ∀ entry, (check entry = .ok () ∧ P entry) ∨ check entry = .error .staleArchiveSession) :
    withSession session (fun entry => do check entry; return change entry) s =
        (.error .staleArchiveSession, s) ∨
      P (orDefault s session.bucket) ∧
        withSession session (fun entry => do check entry; return change entry) s =
          (.ok (change (orDefault s session.bucket)).1,
            s.insert session.bucket (change (orDefault s session.bucket)).2) := by
  rcases withSession_cases session (fun entry => do check entry; return change entry) s with
    ⟨e, he, hw⟩ | ⟨entry, a, entry', rfl, hop, hw⟩
  · left
    rcases he with rfl | ⟨entry, hop⟩
    · exact hw
    · rcases hc entry with ⟨h, -⟩ | h <;> rw [h] at hop
      · cases hop
      · cases hop; exact hw
  · right
    rcases hc (orDefault s session.bucket) with ⟨h, hP⟩ | h <;> rw [h] at hop
    · have hch : change (orDefault s session.bucket) = (a, entry') := Except.ok.inj hop
      rw [hch]; exact ⟨hP, hw⟩
    · cases hop

theorem renewArchiveLease_effect (env : Env) (session : ArchiveSession) (d : Duration) (s : Store) :
    Effect env s (.renewArchiveLease session d) (renewArchiveLease env session d s).1
      (renewArchiveLease env session d s).2 := by
  unfold renewArchiveLease
  rcases leaseDeadline_cases env.first d with h | h <;> rw [h]
  · dsimp only
    rcases withSession_check session
      (fun entry => ((), { entry with archiveOwnerExpiresAt := some (env.first + d) })) s
      (fun entry => validateActiveSession_cases entry session env.second)
      with hw | ⟨held, hw⟩ <;> rw [hw]
    · exact .refused rfl (.inl rfl)
    · exact .renew held
  · exact .refused rfl (.inr ⟨rfl, d, rfl, h⟩)

theorem deferArchive_effect (env : Env) (session : ArchiveSession) (d : Duration) (s : Store) :
    Effect env s (.deferArchive session d) (deferArchive env session d s).1
      (deferArchive env session d s).2 := by
  unfold deferArchive
  rcases leaseDeadline_cases env.first d with h | h <;> rw [h]
  · dsimp only
    rcases withSession_check session
      (fun entry => ((), { entry with
        state := .hot
        archiveOwnerToken := none
        archiveOwnerExpiresAt := none
        nextAttemptAt := some (env.first + d) })) s
      (fun entry => validateArchiveSession_cases entry session .archiving env.second)
      with hw | ⟨⟨hp, held⟩, hw⟩ <;> rw [hw]
    · exact .refused rfl (.inl rfl)
    · exact .deferArchive hp held
  · exact .refused rfl (.inr ⟨rfl, d, rfl, h⟩)

theorem deferCleanup_effect (env : Env) (session : ArchiveSession) (d : Duration) (s : Store) :
    Effect env s (.deferCleanup session d) (deferCleanup env session d s).1
      (deferCleanup env session d s).2 := by
  unfold deferCleanup
  rcases leaseDeadline_cases env.first d with h | h <;> rw [h]
  · dsimp only
    rcases withSession_check session
      (fun entry => ((), { entry with
        archiveOwnerExpiresAt := some (env.first + d)
        nextAttemptAt := some (env.first + d) })) s
      (fun entry => validateCleanupSession_cases entry session env.second)
      with hw | ⟨⟨⟨key, hp⟩, held⟩, hw⟩ <;> rw [hw]
    · exact .refused rfl (.inl rfl)
    · exact .deferCleanup hp held
  · exact .refused rfl (.inr ⟨rfl, d, rfl, h⟩)

theorem snapshot_effect (env : Env) (session : ArchiveSession) (s : Store) :
    Effect env s (.snapshot session) (snapshot env session s).1 (snapshot env session s).2 := by
  unfold snapshot
  rcases withSession_check session
    (fun entry => (entry.records, entry)) s
    (fun entry => validateArchiveSession_cases entry session .archiving env.first)
    with hw | ⟨⟨hp, held⟩, hw⟩ <;> rw [hw]
  · exact .refused rfl (.inl rfl)
  · exact .snapshot hp held

theorem publishArchive_effect (env : Env) (session : ArchiveSession) (key : String) (s : Store) :
    Effect env s (.publishArchive session key) (publishArchive env session key s).1
      (publishArchive env session key s).2 := by
  unfold publishArchive
  rcases withSession_check session
    (fun entry => ((), { entry with state := .archived key false })) s
    (fun entry => validateArchiveSession_cases entry session .archiving env.first)
    with hw | ⟨⟨hp, held⟩, hw⟩ <;> rw [hw]
  · exact .refused rfl (.inl rfl)
  · exact .publish hp held

theorem abortArchive_effect (env : Env) (session : ArchiveSession) (s : Store) :
    Effect env s (.abortArchive session) (abortArchive env session s).1
      (abortArchive env session s).2 := by
  unfold abortArchive
  rcases withSession_check session
    (fun entry => ((), { entry with
      state := .hot
      archiveOwnerToken := none
      archiveOwnerExpiresAt := none
      nextAttemptAt := none })) s
    (fun entry => validateArchiveSession_cases entry session .archiving env.first)
    with hw | ⟨⟨hp, held⟩, hw⟩ <;> rw [hw]
  · exact .refused rfl (.inl rfl)
  · exact .abort hp held

theorem deleteHotBucket_effect (env : Env) (session : ArchiveSession) (s : Store) :
    Effect env s (.deleteHotBucket session) (deleteHotBucket env session s).1
      (deleteHotBucket env session s).2 := by
  unfold deleteHotBucket
  rcases withSession_cases session (fun entry : Entry =>
      match entry.state with
      | .archived objectKey false => do
          validateActiveSession entry session env.first
          return ((), { entry with records := [], state := .archived objectKey true })
      | _ => throw .staleArchiveSession) s with
    ⟨e, he, hw⟩ | ⟨entry, a, entry', rfl, hop, hw⟩ <;> rw [hw]
  · refine .refused rfl (.inl ?_)
    rcases he with rfl | ⟨entry, hop⟩
    · rfl
    · split at hop
      · rcases validateActiveSession_cases entry session env.first with ⟨h, -⟩ | h <;>
          rw [h] at hop <;> cases hop
        rfl
      · cases hop; rfl
  · split at hop
    · rename_i key hp
      rcases validateActiveSession_cases (orDefault s session.bucket) session env.first with
        ⟨h, held⟩ | h <;> rw [h] at hop <;> cases hop
      exact .deleteHot hp held
    · cases hop

/-- **What an operation can do.** -/
theorem exec_effect (env : Env) (q : StoreRequest) (s : Store) :
    Effect env s q (exec env q s).1 (exec env q s).2 := by
  cases q with
  | append b r =>
      change Effect env s (.append b r) (append b r s).1 (append b r s).2
      unfold append
      dsimp only
      split
      case isTrue => exact .look rfl rfl rfl (orDefault_insert_self s b)
      case isFalse h => exact .append (not_not.mp h)
  | state b => exact .look rfl rfl rfl fun _ => rfl
  | discoverArchiveWork scan => exact .look rfl rfl rfl fun _ => rfl
  | claimArchive b d => exact claimArchive_effect env b d s
  | claimCleanup b d => exact claimCleanup_effect env b d s
  | renewArchiveLease session d => exact renewArchiveLease_effect env session d s
  | deferArchive session d => exact deferArchive_effect env session d s
  | deferCleanup session d => exact deferCleanup_effect env session d s
  | readRange b range after limit =>
      refine .look rfl rfl rfl fun _ => ?_
      change orDefault (readRange b range after limit s).2 _ = _
      unfold readRange
      split <;> rfl
  | beginArchive b => exact beginArchive_effect env b s
  | snapshot session => exact snapshot_effect env session s
  | publishArchive session key => exact publishArchive_effect env session key s
  | deleteHotBucket session => exact deleteHotBucket_effect env session s
  | abortArchive session => exact abortArchive_effect env session s

end InMemory

end Pulpitum
