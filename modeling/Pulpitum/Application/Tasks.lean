import Mathlib
import Pulpitum.Support.Runs
import Pulpitum.Application.Programs

/-!
# Application — Tasks

How a worker runs.  A task is the worker with its lease renewer: the worker is between two awaits,
or awaits an operation, the `select!` of `supervise`, the drain of `supervise`, or the end of the
renewer; the renewer sleeps, renews, or has ended.  Futures are lazy: an operation starts when it
is first polled, and is in flight from then on.

The renewer runs on a thread of its own, so a poll of the `select!` is two steps: it looks at the
failure channel, and then polls the operation.  A failure that is sent between the two is found by
the next poll, if there is one.

The steps of a task are labelled with what others can see of them: an operation starts, takes
effect with a reply, or is abandoned (its reply is lost, or its worker is gone, and it may take
effect later); the renewer sends its failure.  Which replies operations get is left open here.
-/

namespace Pulpitum

/-- An operation in flight: under way, or answered with the answer not yet polled. -/
inductive Flight (q : Request) where
  | pending
  | answered (r : q.Reply)

/-- The reply is a failure. -/
def Request.Failed : (q : Request) → q.Reply → Prop
  | store _, r => ∃ e, r = Except.error e
  | archive _, r => ∃ e, r = Except.error e

/-- How a worker awaits an operation that it has polled. -/
inductive Wait (q : Request) (α : Type) where
  /-- In `operation.await`. -/
  | called (k : q.Reply → Worker α)
  /-- In the `select!` of `supervise`, between two polls. -/
  | selecting (k : Except DurableBucketStoreError q.Reply → Worker α)
  /-- In a poll of the `select!` that has found no failure. -/
  | polling (k : Except DurableBucketStoreError q.Reply → Worker α)
  /-- In the `operation.await` of the failure branch of `supervise`. -/
  | draining (k : Except DurableBucketStoreError q.Reply → Worker α)
      (error : DurableBucketStoreError)

/-- Where a worker is. -/
inductive Phase (α : Type) where
  /-- Between two awaits. -/
  | run (p : Worker α)
  | awaiting (q : Request) (w : Wait q α) (f : Flight q)
  /-- In the first poll of `supervise`, which has found no failure and not yet polled the
  operation. -/
  | looked (q : Request) (k : Except DurableBucketStoreError q.Reply → Worker α)
  /-- At the beginning of the failure branch of `supervise`, the operation never having been
  polled. -/
  | unpolled (q : Request) (k : Except DurableBucketStoreError q.Reply → Worker α)
      (error : DurableBucketStoreError)
  /-- In `shutdown`, awaiting the renewer. -/
  | stopping (k : Unit → Worker α)
  | finished (a : α)
  | crashed

/-- Where the renewer of a worker is. -/
inductive Renewer where
  | absent
  | sleeping (session : ArchiveSession) (leaseFor : Duration)
  | renewing (session : ArchiveSession) (leaseFor : Duration)
      (f : Flight (.store (.renewArchiveLease session leaseFor)))
  | ended

/-- A worker, its renewer, and the two channels between them: the failure sent and not yet
received, and whether the renewer was told to stop. -/
@[ext]
structure Task (α : Type) where
  phase : Phase α
  renewer : Renewer
  failure : Option DurableBucketStoreError
  stop : Bool

namespace Task

variable {α : Type}

/-- A worker about to run `p`. -/
def init (p : Worker α) : Task α := ⟨.run p, .absent, none, false⟩

/-- What others see of a step. -/
inductive Label where
  | silent
  /-- The worker polls an operation for the first time. -/
  | start (q : Request)
  /-- An operation in flight takes effect, with its reply. -/
  | serve (q : Request) (r : q.Reply)
  /-- No one waits for the operation any more. -/
  | abandon (q : Request)
  /-- A renewer is started. -/
  | newRenewer
  /-- The renewer sends its failure. -/
  | failed (e : DurableBucketStoreError)

open Label

/-- One step of a worker or of its renewer. -/
inductive Step : Task α → Label → Task α → Prop where
  /-- `operation.await`. -/
  | call {q : Request} {k : q.Reply → Worker α} {r f b} :
      Step ⟨.run (.ask (.call q) k), r, f, b⟩ (start q) ⟨.awaiting q (.called k) .pending, r, f, b⟩
  | called {q : Request} {k : q.Reply → Worker α} {a r f b} :
      Step ⟨.awaiting q (.called k) (.answered a), r, f, b⟩ silent ⟨.run (k a), r, f, b⟩
  /-- The first poll of `supervise` finds no failure. -/
  | look {q : Request} {k : Except DurableBucketStoreError q.Reply → Worker α} {r b} :
      Step ⟨.run (.ask (.supervise q) k), r, none, b⟩ silent ⟨.looked q k, r, none, b⟩
  /-- It polls the operation, whether or not a failure was sent meanwhile. -/
  | select {q : Request} {k : Except DurableBucketStoreError q.Reply → Worker α} {r f b} :
      Step ⟨.looked q k, r, f, b⟩ (start q) ⟨.awaiting q (.polling k) .pending, r, f, b⟩
  /-- The operation is not ready, and the poll ends. -/
  | park {q : Request} {k : Except DurableBucketStoreError q.Reply → Worker α} {r f b} :
      Step ⟨.awaiting q (.polling k) .pending, r, f, b⟩ silent
        ⟨.awaiting q (.selecting k) .pending, r, f, b⟩
  /-- A later poll finds no failure. -/
  | poll {q : Request} {k : Except DurableBucketStoreError q.Reply → Worker α} {g r b} :
      Step ⟨.awaiting q (.selecting k) g, r, none, b⟩ silent
        ⟨.awaiting q (.polling k) g, r, none, b⟩
  /-- The operation is ready, whether or not a failure was sent meanwhile. -/
  | selected {q : Request} {k : Except DurableBucketStoreError q.Reply → Worker α} {a r f b} :
      Step ⟨.awaiting q (.polling k) (.answered a), r, f, b⟩ silent ⟨.run (k (.ok a)), r, f, b⟩
  /-- A later poll finds the failure, the operation being under way or just answered. -/
  | select_failed {q : Request} {k : Except DurableBucketStoreError q.Reply → Worker α} {g e r b} :
      Step ⟨.awaiting q (.selecting k) g, r, some e, b⟩ silent
        ⟨.awaiting q (.draining k e) g, r, none, b⟩
  /-- The first poll finds the failure.  The `select!` is biased, so the operation is not polled. -/
  | first_failed {q : Request} {k : Except DurableBucketStoreError q.Reply → Worker α} {e r b} :
      Step ⟨.run (.ask (.supervise q) k), r, some e, b⟩ silent ⟨.unpolled q k e, r, none, b⟩
  /-- The failure branch awaits the operation all the same. -/
  | drain {q : Request} {k : Except DurableBucketStoreError q.Reply → Worker α} {e r f b} :
      Step ⟨.unpolled q k e, r, f, b⟩ (start q) ⟨.awaiting q (.draining k e) .pending, r, f, b⟩
  | drained {q : Request} {k : Except DurableBucketStoreError q.Reply → Worker α} {e a r f b} :
      Step ⟨.awaiting q (.draining k e) (.answered a), r, f, b⟩ silent
        ⟨.run (k (.error e)), r, f, b⟩
  /-- `ArchiveLeaseRenewer::start`, with new channels. -/
  | startRenewer {session leaseFor interval} {k : Unit → Worker α} {r f b} :
      Step ⟨.run (.ask (.startRenewer session leaseFor interval) k), r, f, b⟩ newRenewer
        ⟨.run (k ()), .sleeping session leaseFor, none, false⟩
  | shutdown {k : Unit → Worker α} {r f b} :
      Step ⟨.run (.ask .shutdown k), r, f, b⟩ silent ⟨.stopping k, r, f, true⟩
  | stopped {k : Unit → Worker α} {f b} :
      Step ⟨.stopping k, .ended, f, b⟩ silent ⟨.run (k ()), .ended, f, b⟩
  | finish {a : α} {r f b} : Step ⟨.run (.ret a), r, f, b⟩ silent ⟨.finished a, r, f, b⟩
  -- The operation in flight takes effect, or its reply is lost before or after it did.
  | serve {q : Request} {w : Wait q α} {a r f b} :
      Step ⟨.awaiting q w .pending, r, f, b⟩ (serve q a) ⟨.awaiting q w (.answered a), r, f, b⟩
  | abandon {q : Request} {w : Wait q α} {a r f b} (h : q.Failed a) :
      Step ⟨.awaiting q w .pending, r, f, b⟩ (abandon q) ⟨.awaiting q w (.answered a), r, f, b⟩
  | lose {q : Request} {w : Wait q α} {a a' r f b} (h : q.Failed a') :
      Step ⟨.awaiting q w (.answered a), r, f, b⟩ silent ⟨.awaiting q w (.answered a'), r, f, b⟩
  -- The worker's future is dropped, and with it the stop channel of the renewer.
  | crash {p : Phase α} {r f b} : Step ⟨p, r, f, b⟩ silent ⟨.crashed, r, f, true⟩
  | crash_abandon {q : Request} {w : Wait q α} {r f b} :
      Step ⟨.awaiting q w .pending, r, f, b⟩ (abandon q) ⟨.crashed, r, f, true⟩
  -- The renewer.  Its `select!` is not biased, so it may renew once more after it was told to stop.
  | renew {p : Phase α} {s d f b} :
      Step ⟨p, .sleeping s d, f, b⟩ silent ⟨p, .renewing s d .pending, f, b⟩
  | renew_stop {p : Phase α} {s d f} :
      Step ⟨p, .sleeping s d, f, true⟩ silent ⟨p, .ended, f, true⟩
  | renew_serve {p : Phase α} {s d a f b} :
      Step ⟨p, .renewing s d .pending, f, b⟩ (serve (.store (.renewArchiveLease s d)) a)
        ⟨p, .renewing s d (.answered a), f, b⟩
  | renew_abandon {p : Phase α} {s d f b} {e : DurableBucketStoreError} :
      Step ⟨p, .renewing s d .pending, f, b⟩ (abandon (.store (.renewArchiveLease s d)))
        ⟨p, .renewing s d (.answered (.error e)), f, b⟩
  | renew_lose {p : Phase α} {s d a f b} {e : DurableBucketStoreError} :
      Step ⟨p, .renewing s d (.answered a), f, b⟩ silent
        ⟨p, .renewing s d (.answered (.error e)), f, b⟩
  | renewed {p : Phase α} {s d f b} :
      Step ⟨p, .renewing s d (.answered (.ok ())), f, b⟩ silent ⟨p, .sleeping s d, f, b⟩
  | renew_failed {p : Phase α} {s d f b} {e : DurableBucketStoreError} :
      Step ⟨p, .renewing s d (.answered (.error e)), f, b⟩ (failed e) ⟨p, .ended, some e, b⟩

end Task

end Pulpitum
