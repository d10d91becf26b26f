import Mathlib
import Pulpitum.Support.Prog
import Pulpitum.Ports.Storage

/-!
# Application — Programs

The archival workers as programs: `DurableArchiveCoordinator::archive_bucket` and
`DurableArchiveRecoveryRunner::run_once`.  A program awaits an operation by itself (`call`) or
under the lease renewer (`supervise`), starts the renewer of a session and shuts it down.  An
operation under the renewer is answered with the operation's own result, or with the renewal
failure that stopped the worker.
-/

namespace Pulpitum

/-! ### Effects -/

/-- An operation of one of the two stores. -/
inductive Request where
  | store (q : StoreRequest)
  | archive (q : ArchiveRequest)

/-- What an operation returns. -/
def Request.Reply : Request → Type
  | store q => q.Reply
  | archive q => q.Reply

/-- The bucket an operation names. -/
def Request.bucket? : Request → Option BucketId
  | store q => q.bucket?
  | archive q => some q.bucket

/-- What a worker asks of its runtime. -/
inductive Effect where
  /-- `operation.await`. -/
  | call (q : Request)
  /-- `renewer.supervise(operation).await`. -/
  | supervise (q : Request)
  /-- `ArchiveLeaseRenewer::start`. -/
  | startRenewer (session : ArchiveSession) (leaseFor interval : Duration)
  /-- `renewer.shutdown().await`. -/
  | shutdown

/-- What the runtime answers. -/
def Effect.Answer : Effect → Type
  | call q => q.Reply
  | supervise q => Except DurableBucketStoreError q.Reply
  | startRenewer .. => Unit
  | shutdown => Unit

/-- The answers of two stores, without a renewer. -/
def Effect.answer (store : (q : StoreRequest) → q.Reply)
    (archive : (q : ArchiveRequest) → q.Reply) :
    (e : Effect) → e.Answer
  | call (.store q) => store q
  | call (.archive q) => archive q
  | supervise _ => .error .operationFailed
  | startRenewer .. => ()
  | shutdown => ()

/-- A worker's program. -/
abbrev Worker (α : Type) := Prog Effect.Answer α

/-- What a worker asked, with the answers. -/
abbrev History := List ((e : Effect) × e.Answer)

namespace Worker

/-- Await a store operation. -/
def callStore (q : StoreRequest) : Worker q.Reply := Prog.perform (Effect.call (.store q))

/-- Await an archive operation. -/
def callArchive (q : ArchiveRequest) : Worker q.Reply := Prog.perform (Effect.call (.archive q))

/-- Await a store operation under the renewer. -/
def superviseStore (q : StoreRequest) : Worker (Except DurableBucketStoreError q.Reply) :=
  Prog.perform (Effect.supervise (.store q))

/-- Await an archive operation under the renewer. -/
def superviseArchive (q : ArchiveRequest) : Worker (Except DurableBucketStoreError q.Reply) :=
  Prog.perform (Effect.supervise (.archive q))

/-- Start the renewer of a session. -/
def startRenewer (session : ArchiveSession) (leaseFor interval : Duration) : Worker Unit :=
  Prog.perform (Effect.startRenewer session leaseFor interval)

/-- Shut the renewer down. -/
def shutdown : Worker Unit := Prog.perform Effect.shutdown

end Worker

open Worker

/-! ### Direct cutover -/

/-- `DurableArchiveError`. -/
inductive DurableArchiveError where
  | durableStore (e : DurableBucketStoreError)
  | store (e : StoreError)
deriving DecidableEq

/-- `ArchiveOutcome`. -/
structure ArchiveOutcome where
  bucket : BucketId
  objectKey : String
  recordsArchived : ℕ
deriving DecidableEq

/-- `DIRECT_ARCHIVE_LEASE`: five minutes. -/
def directArchiveLease : Duration := 5 * 60 * 1000000000

/-- `DIRECT_ARCHIVE_LEASE_RENEWAL_INTERVAL`: one minute. -/
def directArchiveLeaseRenewalInterval : Duration := 60 * 1000000000

/-- `supervise(abort_archive(session)).await??`, and then the error that led to it. -/
def abortWith (session : ArchiveSession) (error : DurableArchiveError) :
    Worker (Except DurableArchiveError ArchiveOutcome) := do
  match ← superviseStore (.abortArchive session) with
  | .error e => return .error (.durableStore e)
  | .ok (.error e) => return .error (.durableStore e)
  | .ok (.ok ()) => return .error error

/-- `archive_claimed_bucket`. -/
def archiveClaimedBucket (bucket : BucketId) (session : ArchiveSession) :
    Worker (Except DurableArchiveError ArchiveOutcome) := do
  match ← superviseStore (.snapshot session) with
  | .error e => return .error (.durableStore e)
  | .ok (.error error) => abortWith session (.durableStore error)
  | .ok (.ok records) =>
      match ← superviseArchive (.putBucketGeneration bucket session.generation records) with
      | .error e => return .error (.durableStore e)
      | .ok (.error error) => abortWith session (.store error)
      | .ok (.ok objectKey) =>
          match ← superviseStore (.publishArchive session objectKey) with
          | .error e => return .error (.durableStore e)
          | .ok (.error e) => return .error (.durableStore e)
          | .ok (.ok ()) =>
              match ← superviseStore (.deleteHotBucket session) with
              | .error e => return .error (.durableStore e)
              | .ok (.error e) => return .error (.durableStore e)
              | .ok (.ok ()) => return .ok ⟨bucket, objectKey, List.length (α := Record) records⟩

/-- `archive_bucket`. -/
def archiveBucket (bucket : BucketId) : Worker (Except DurableArchiveError ArchiveOutcome) := do
  match ← callStore (.beginArchive bucket) with
  | .error e => return .error (.durableStore e)
  | .ok session => do
      startRenewer session directArchiveLease directArchiveLeaseRenewalInterval
      let result ← archiveClaimedBucket bucket session
      shutdown
      return result

/-! ### Recovery -/

/-- `ArchiveRecoveryError`. -/
inductive ArchiveRecoveryError where
  | invalidConfig
  | durableStore (e : DurableBucketStoreError)
  | archive (e : DurableArchiveError)
deriving DecidableEq

/-- `ArchiveRecoveryConfig`. -/
structure ArchiveRecoveryConfig where
  eligibleBefore : DateTime
  scanLimit : ℕ
  leaseFor : Duration
  leaseRenewalInterval : Duration
  retryBackoff : Duration

/-- `ArchiveRecoveryConfig::validate`. -/
def ArchiveRecoveryConfig.validate (c : ArchiveRecoveryConfig) : Except ArchiveRecoveryError Unit :=
  if c.scanLimit = 0 ∨ c.leaseFor = 0 ∨ c.leaseRenewalInterval = 0 ∨
      c.leaseFor ≤ c.leaseRenewalInterval ∨ c.retryBackoff = 0 then .error .invalidConfig
  else .ok ()

/-- `ArchiveRecoveryOutcome`. -/
@[ext]
structure ArchiveRecoveryOutcome where
  discovered : ℕ
  claimed : ℕ
  completed : ℕ
  deferred : ℕ
deriving DecidableEq

/-- What the recovery functions return, with the counters they have advanced. -/
abbrev Recovery := Except ArchiveRecoveryError Unit × ArchiveRecoveryOutcome

/-- `defer_cutover`. -/
def deferCutover (cfg : ArchiveRecoveryConfig) (session : ArchiveSession)
    (outcome : ArchiveRecoveryOutcome) (error : DurableBucketStoreError) : Worker Recovery := do
  match ← superviseStore (.deferArchive session cfg.retryBackoff) with
  | .error e => return (.error (.durableStore e), outcome)
  | .ok (.error e) => return (.error (.durableStore e), outcome)
  | .ok (.ok ()) =>
      return (.error (.durableStore error), { outcome with deferred := outcome.deferred + 1 })

/-- `finish_cleanup`. -/
def finishCleanup (cfg : ArchiveRecoveryConfig) (session : ArchiveSession)
    (outcome : ArchiveRecoveryOutcome) : Worker Recovery := do
  match ← superviseStore (.deleteHotBucket session) with
  | .error e => return (.error (.durableStore e), outcome)
  | .ok (.ok ()) => return (.ok (), { outcome with completed := outcome.completed + 1 })
  | .ok (.error error) =>
      match ← superviseStore (.deferCleanup session cfg.retryBackoff) with
      | .error e => return (.error (.durableStore e), outcome)
      | .ok (.error e) => return (.error (.durableStore e), outcome)
      | .ok (.ok ()) =>
          return (.error (.durableStore error), { outcome with deferred := outcome.deferred + 1 })

/-- `recover_claimed_cutover`, after the upload: publication may have committed although the
caller saw an error, so the routing state decides how to go on. -/
def publishClaimedCutover (cfg : ArchiveRecoveryConfig) (bucket : BucketId)
    (session : ArchiveSession) (outcome : ArchiveRecoveryOutcome) (objectKey : String) :
    Worker Recovery := do
  match ← superviseStore (.publishArchive session objectKey) with
  | .error e => return (.error (.durableStore e), outcome)
  | .ok (.ok ()) => finishCleanup cfg session outcome
  | .ok (.error error) =>
      match ← superviseStore (.state bucket) with
      | .error e => return (.error (.durableStore e), outcome)
      | .ok (.error e) => return (.error (.durableStore e), outcome)
      | .ok (.ok (BucketState.archived _ false)) => finishCleanup cfg session outcome
      | .ok (.ok BucketState.archiving) => deferCutover cfg session outcome error
      | .ok (.ok _) => return (.error (.durableStore error), outcome)

/-- `recover_claimed_cutover`. -/
def recoverClaimedCutover (cfg : ArchiveRecoveryConfig) (bucket : BucketId)
    (session : ArchiveSession) (outcome : ArchiveRecoveryOutcome) : Worker Recovery := do
  match ← superviseStore (.snapshot session) with
  | .error e => return (.error (.durableStore e), outcome)
  | .ok (.error error) => deferCutover cfg session outcome error
  | .ok (.ok records) =>
      match ← superviseArchive (.putBucketGeneration bucket session.generation records) with
      | .error e => return (.error (.durableStore e), outcome)
      | .ok (.error error) => do
          match ← deferCutover cfg session outcome .operationFailed with
          | (.error e, outcome) => return (.error e, outcome)
          | (.ok (), outcome) => return (.error (.archive (.store error)), outcome)
      | .ok (.ok objectKey) => publishClaimedCutover cfg bucket session outcome objectKey

/-- `recover_cutover`. -/
def recoverCutover (cfg : ArchiveRecoveryConfig) (bucket : BucketId)
    (outcome : ArchiveRecoveryOutcome) : Worker Recovery := do
  match ← callStore (.claimArchive bucket cfg.leaseFor) with
  | .error e => return (.error (.durableStore e), outcome)
  | .ok none => return (.ok (), outcome)
  | .ok (some session) => do
      let outcome := { outcome with claimed := outcome.claimed + 1 }
      startRenewer session cfg.leaseFor cfg.leaseRenewalInterval
      let result ← recoverClaimedCutover cfg bucket session outcome
      shutdown
      return result

/-- `recover_cleanup`. -/
def recoverCleanup (cfg : ArchiveRecoveryConfig) (bucket : BucketId)
    (outcome : ArchiveRecoveryOutcome) : Worker Recovery := do
  match ← callStore (.claimCleanup bucket cfg.leaseFor) with
  | .error e => return (.error (.durableStore e), outcome)
  | .ok none => return (.ok (), outcome)
  | .ok (some session) => do
      let outcome := { outcome with claimed := outcome.claimed + 1 }
      startRenewer session cfg.leaseFor cfg.leaseRenewalInterval
      let result ← finishCleanup cfg session outcome
      shutdown
      return result

/-- The loop of `run_once` over the discovered work. -/
def runItems (cfg : ArchiveRecoveryConfig) :
    List ArchiveWork → ArchiveRecoveryOutcome →
      Worker (Except ArchiveRecoveryError ArchiveRecoveryOutcome)
  | [], outcome => return .ok outcome
  | item :: work, outcome => do
      let (result, outcome) ← match item with
        | .cleanup bucket => recoverCleanup cfg bucket outcome
        | .cutover bucket => recoverCutover cfg bucket outcome
      match result with
      | .error e => return .error e
      | .ok () => runItems cfg work outcome

/-- What the loop does after an item: it ends at the first error. -/
def runRest (cfg : ArchiveRecoveryConfig) (work : List ArchiveWork) (r : Recovery) :
    Worker (Except ArchiveRecoveryError ArchiveRecoveryOutcome) :=
  match r.1 with
  | .error e => return .error e
  | .ok () => runItems cfg work r.2

/-- `run_once`. -/
def runOnce (cfg : ArchiveRecoveryConfig) :
    Worker (Except ArchiveRecoveryError ArchiveRecoveryOutcome) := do
  match ← callStore (.discoverArchiveWork ⟨cfg.eligibleBefore, cfg.scanLimit⟩) with
  | .error e => return .error (.durableStore e)
  | .ok work =>
      runItems cfg work ⟨List.length (α := ArchiveWork) work % 2 ^ 32, 0, 0, 0⟩

end Pulpitum
