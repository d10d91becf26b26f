import Mathlib
import Pulpitum.Domain.Model

/-!
# Ports — Storage

The boundary between the archival workers and the stores: routing states, errors, archive
sessions, and the operations of `DurableBucketStore` and `ArchiveStore` as requests with typed
replies.
-/

namespace Pulpitum

/-- Durable routing state of a bucket. -/
inductive BucketState where
  | hot
  | archiving
  | archived (objectKey : String) (hotDeleted : Bool)
deriving DecidableEq

/-- Failure of an archive store. -/
inductive StoreError where
  | missingBucket (bucket : BucketId)
  | other (message : String)
deriving DecidableEq

/-- Failure of a durable bucket operation. -/
inductive DurableBucketStoreError where
  | unavailable
  | operationFailed
  | commitOutcomeUnknown
  | bucketReadOnly (state : BucketState)
  | archiveNotAllowed (state : BucketState)
  | bucketStrategyMismatch
  | staleArchiveSession
deriving DecidableEq

/-- A routed read: the records of a hot bucket, or the key of its archive object. -/
inductive DurableBucketRead where
  | hot (records : List Record)
  | archive (objectKey : String)
deriving DecidableEq

/-- The credential of one archival attempt on a bucket. -/
@[ext]
structure ArchiveSession where
  bucket : BucketId
  ownerToken : String
  generation : ℕ
deriving DecidableEq

/-- Archival work found in durable state. -/
inductive ArchiveWork where
  | cutover (bucket : BucketId)
  | cleanup (bucket : BucketId)
deriving DecidableEq

/-- `work_bucket`. -/
def ArchiveWork.bucket : ArchiveWork → BucketId
  | cutover b => b
  | cleanup b => b

/-- A bounded discovery request. -/
structure ArchiveScan where
  eligibleBefore : DateTime
  limit : ℕ

/-- A `std::time::Duration`, in nanoseconds. -/
abbrev Duration := ℕ

/-- An operation of `DurableBucketStore`. -/
inductive StoreRequest where
  | append (bucket : BucketId) (record : Record)
  | state (bucket : BucketId)
  | discoverArchiveWork (scan : ArchiveScan)
  | claimArchive (bucket : BucketId) (leaseFor : Duration)
  | claimCleanup (bucket : BucketId) (leaseFor : Duration)
  | renewArchiveLease (session : ArchiveSession) (leaseFor : Duration)
  | deferArchive (session : ArchiveSession) (retryAfter : Duration)
  | deferCleanup (session : ArchiveSession) (retryAfter : Duration)
  | readRange (bucket : BucketId) (range : TimeRange) (after : Option Cursor) (limit : ℕ)
  | beginArchive (bucket : BucketId)
  | snapshot (session : ArchiveSession)
  | publishArchive (session : ArchiveSession) (objectKey : String)
  | deleteHotBucket (session : ArchiveSession)
  | abortArchive (session : ArchiveSession)

namespace StoreRequest

/-- What an operation returns when it succeeds. -/
def Value : StoreRequest → Type
  | append .. => Unit
  | state _ => BucketState
  | discoverArchiveWork _ => List ArchiveWork
  | claimArchive .. => Option ArchiveSession
  | claimCleanup .. => Option ArchiveSession
  | renewArchiveLease .. => Unit
  | deferArchive .. => Unit
  | deferCleanup .. => Unit
  | readRange .. => DurableBucketRead
  | beginArchive _ => ArchiveSession
  | snapshot _ => List Record
  | publishArchive .. => Unit
  | deleteHotBucket _ => Unit
  | abortArchive _ => Unit

/-- What an operation returns. -/
abbrev Reply (q : StoreRequest) : Type := Except DurableBucketStoreError q.Value

/-- The session an operation is conditioned on. -/
def session? : StoreRequest → Option ArchiveSession
  | renewArchiveLease s _ | deferArchive s _ | deferCleanup s _ | snapshot s | publishArchive s _
  | deleteHotBucket s | abortArchive s => some s
  | append .. | state _ | discoverArchiveWork _ | claimArchive .. | claimCleanup ..
  | readRange .. | beginArchive _ => none

/-- The bucket an operation names. -/
def bucket? : StoreRequest → Option BucketId
  | append b _ | state b | claimArchive b _ | claimCleanup b _ | readRange b .. | beginArchive b =>
      some b
  | renewArchiveLease s _ | deferArchive s _ | deferCleanup s _ | snapshot s | publishArchive s _
  | deleteHotBucket s | abortArchive s => some s.bucket
  | discoverArchiveWork _ => none

/-- The duration an operation on a session takes. -/
def duration? : StoreRequest → Option Duration
  | renewArchiveLease _ d | deferArchive _ d | deferCleanup _ d => some d
  | append .. | state _ | discoverArchiveWork _ | claimArchive .. | claimCleanup ..
  | readRange .. | beginArchive _ | snapshot _ | publishArchive .. | deleteHotBucket _
  | abortArchive _ => none

/-- The record an operation appended. -/
def appended? : (q : StoreRequest) → q.Reply → Option (BucketId × Record)
  | append b r, .ok () => some (b, r)
  | _, _ => none

/-- The session an operation issued. -/
def issued? : (q : StoreRequest) → q.Reply → Option ArchiveSession
  | claimArchive .., .ok s => s
  | claimCleanup .., .ok s => s
  | beginArchive _, .ok s => some s
  | _, _ => none

/-- The session an operation ended: `abort_archive` and `defer_archive` reopen the bucket. -/
def ended? : (q : StoreRequest) → q.Reply → Option ArchiveSession
  | deferArchive s _, .ok () => some s
  | abortArchive s, .ok () => some s
  | _, _ => none

@[simp]
theorem appended?_error {q : StoreRequest} {e : DurableBucketStoreError} :
    q.appended? (.error e) = none := by
  cases q <;> rfl

@[simp]
theorem issued?_error {q : StoreRequest} {e : DurableBucketStoreError} :
    q.issued? (.error e) = none := by
  cases q <;> rfl

@[simp]
theorem ended?_error {q : StoreRequest} {e : DurableBucketStoreError} :
    q.ended? (.error e) = none := by
  cases q <;> rfl

end StoreRequest

/-! ### Calls -/

/-- A store as a function: the reply to an operation, and the state after it.  What an operation
reads from its surroundings is of type `ε`. -/
abbrev Exec (ε σ : Type) := ε → (q : StoreRequest) → σ → q.Reply × σ

/-- A call of a store operation, with its reply. -/
structure Call (ε : Type) where
  env : ε
  request : StoreRequest
  reply : request.Reply

namespace Call

variable {ε σ : Type}

/-- The call of `q` in the state `s`. -/
def of (exec : Exec ε σ) (env : ε) (q : StoreRequest) (s : σ) : Call ε := ⟨env, q, (exec env q s).1⟩

/-- The call takes the store from `s` to `s'`. -/
def Step (exec : Exec ε σ) (s : σ) (c : Call ε) (s' : σ) : Prop :=
  exec c.env c.request s = (c.reply, s')

theorem step_of (exec : Exec ε σ) (env : ε) (q : StoreRequest) (s : σ) :
    Step exec s (of exec env q s) (exec env q s).2 := rfl

theorem step_deterministic {exec : Exec ε σ} (s : σ) (c : Call ε) (s₁ s₂ : σ)
    (h₁ : Step exec s c s₁) (h₂ : Step exec s c s₂) : s₁ = s₂ :=
  (Prod.mk.inj (h₁.symm.trans h₂)).2

/-- The record the call appended. -/
def appended (c : Call ε) : Option (BucketId × Record) := c.request.appended? c.reply

/-- The session the call issued. -/
def issued (c : Call ε) : Option ArchiveSession := c.request.issued? c.reply

/-- The session the call ended. -/
def ended (c : Call ε) : Option ArchiveSession := c.request.ended? c.reply

/-- Only operations on a session end one. -/
theorem ended_eq_none {c : Call ε} (h : c.request.session? = none) : c.ended = none := by
  obtain ⟨env, q, r⟩ := c
  cases q <;> first | rfl | cases h

end Call

/-- An operation of `ArchiveStore`. -/
inductive ArchiveRequest where
  | putBucket (bucket : BucketId) (records : List Record)
  | putBucketGeneration (bucket : BucketId) (generation : ℕ) (records : List Record)
  | getBucket (bucket : BucketId) (objectKey : String)

/-- The bucket an operation of `ArchiveStore` names. -/
def ArchiveRequest.bucket : ArchiveRequest → BucketId
  | putBucket b _ | putBucketGeneration b _ _ | getBucket b _ => b

/-- What an operation of `ArchiveStore` returns when it succeeds. -/
def ArchiveRequest.Value : ArchiveRequest → Type
  | putBucket .. => String
  | putBucketGeneration .. => String
  | getBucket .. => List Record

/-- What an operation of `ArchiveStore` returns. -/
abbrev ArchiveRequest.Reply (q : ArchiveRequest) : Type := Except StoreError q.Value

/-- The objects of an archive store, by their keys. -/
abbrev Objects := String → Option (List Record)

/-- An archive store that keeps what it is given under `objectKey`, or fails. -/
inductive KeepsObjects (objectKey : BucketId → Option ℕ → List Record → String) :
    (q : ArchiveRequest) → Objects → q.Reply → Objects → Prop where
  | putBucket {b : BucketId} {rs : List Record} {o : Objects} :
      KeepsObjects objectKey (.putBucket b rs) o (.ok (objectKey b none rs))
        (Function.update o (objectKey b none rs) (some rs))
  | putBucketGeneration {b : BucketId} {g : ℕ} {rs : List Record} {o : Objects} :
      KeepsObjects objectKey (.putBucketGeneration b g rs) o (.ok (objectKey b (some g) rs))
        (Function.update o (objectKey b (some g) rs) (some rs))
  | getBucket {b : BucketId} {key : String} {rs : List Record} {o : Objects}
      (h : o key = some rs) : KeepsObjects objectKey (.getBucket b key) o (.ok rs) o
  | failed {q : ArchiveRequest} {e : StoreError} {o : Objects} :
      KeepsObjects objectKey q o (.error e) o

/-- A session to evaluate on. -/
def Sample.session : ArchiveSession := ⟨bucket, "owner", 1⟩

end Pulpitum
