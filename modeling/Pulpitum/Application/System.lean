import Mathlib
import Pulpitum.Application.DurableTable
import Pulpitum.Application.Renewer

/-!
# Application — System

Appenders and archival workers over shared stores, in any number and any order.  Each store
operation takes effect at one point between its start and its end.  Its reply may be lost, before
or after it took effect, and then its caller sees some failure; an operation whose caller has
given up or is gone may still take effect later, once.

A client that is gone is one that takes no more steps.
-/

namespace Pulpitum

/-- The stores the system runs over: which replies an operation can get in a state, and what it
makes of the state. -/
structure Services where
  State : Type
  serve : (q : Request) → State → q.Reply → State → Prop

/-- A durable bucket store next to an archive store, each as a relation between the state before
an operation, the reply and the state after it. -/
def Services.of {σ ω : Type} (store : (q : StoreRequest) → σ → q.Reply → σ → Prop)
    (archive : (q : ArchiveRequest) → ω → q.Reply → ω → Prop) : Services where
  State := σ × ω
  serve
    | .store q, s, r, s' => store q s.1 r s'.1 ∧ s'.2 = s.2
    | .archive q, s, r, s' => archive q s.2 r s'.2 ∧ s'.1 = s.1

/-- Where the one store call of an appender is. -/
inductive Sending where
  | unsent
  | pending
  | answered (r : Except DurableBucketStoreError Unit)
deriving DecidableEq

/-- One call of the store's `append`, which may be that of `DurableTable::append` after its routing,
and what its caller saw. -/
structure Appender where
  bucket : BucketId
  record : Record
  sending : Sending
  seen : Option (Except DurableBucketStoreError Unit)

namespace Appender

/-- The append took effect. -/
def TookEffect (a : Appender) : Prop := a.sending = .answered (.ok ())

/-- The append was acknowledged to its caller. -/
def Acknowledged (a : Appender) : Prop := a.seen = some (.ok ())

instance : DecidablePred TookEffect := fun a => by unfold TookEffect; infer_instance

end Appender

/-- The stores, everyone who uses them, and the operations no one waits for. -/
structure System (σ : Type) where
  services : σ
  appenders : List Appender
  workers : List (Task JobResult)
  orphans : List Request

/-- The buckets a job names are in `Good`. -/
def Job.Names (Good : BucketId → Prop) : Job → Prop
  | .archiveBucket b => Good b
  | .runOnce _ => True

/-- `DurableTable::append` of some table, called at some time, appends the record to the bucket. -/
def DurableTable.Routes (bucket : BucketId) (record : Record) : Prop :=
  ∃ (table : DurableTable) (now : DateTime), table.routeAppend now record = some (.ok bucket)

namespace DurableTable.Routes

variable {bucket : BucketId} {record : Record}

theorem canonical (h : Routes bucket record) : bucket.Canonical := by
  obtain ⟨_, _, h⟩ := h
  exact canonical_of_routeAppend h

theorem partitionKey (h : Routes bucket record) : bucket.partitionKey = record.partitionKey := by
  obtain ⟨_, _, h⟩ := h
  exact partitionKey_of_routeAppend h

theorem contains (h : Routes bucket record) : bucket.contains record.eventTime := by
  obtain ⟨_, _, h⟩ := h
  exact contains_of_routeAppend h

end DurableTable.Routes

namespace Sample

theorem routes_record : DurableTable.Routes bucket record := ⟨_, _, routeAppend_record⟩

theorem routes_nextRecord : DurableTable.Routes nextBucket nextRecord :=
  ⟨_, _, routeAppend_nextRecord⟩

end Sample

namespace System

/-- The stores, and no one who uses them. -/
def init {σ : Type} (s : σ) : System σ := ⟨s, [], [], []⟩

/-- What a step of a worker means for the stores. -/
inductive Takes (S : Services) :
    Task.Label → S.State → List Request → S.State → List Request → Prop where
  | serve {q : Request} {r s s' os} (h : S.serve q s r s') : Takes S (.serve q r) s os s' os
  | abandon {q : Request} {s os} : Takes S (.abandon q) s os s (q :: os)
  | silent {s os} : Takes S .silent s os s os
  | start {q : Request} {s os} : Takes S (.start q) s os s os
  | newRenewer {s os} : Takes S .newRenewer s os s os
  | failed {e s os} : Takes S (.failed e) s os s os

/-- One step of one party.  The store's `append` is called for buckets and records in `Opens` only,
and archival is asked for buckets in `Good` only. -/
inductive StepOf (S : Services) (Opens : BucketId → Record → Prop) (Good : BucketId → Prop) :
    System S.State → System S.State → Prop where
  | openAppend {s as ws os} {bucket : BucketId} {record : Record} (h : Opens bucket record) :
      StepOf S Opens Good ⟨s, as, ws, os⟩ ⟨s, ⟨bucket, record, .unsent, none⟩ :: as, ws, os⟩
  | send {s l l' ws os b r v} :
      StepOf S Opens Good ⟨s, l ++ ⟨b, r, .unsent, v⟩ :: l', ws, os⟩
        ⟨s, l ++ ⟨b, r, .pending, v⟩ :: l', ws, os⟩
  /-- The append takes effect, or fails. -/
  | serveAppend {s s' l l' ws os b r v} {a : Except DurableBucketStoreError Unit}
      (h : S.serve (.store (.append b r)) s a s') :
      StepOf S Opens Good ⟨s, l ++ ⟨b, r, .pending, v⟩ :: l', ws, os⟩
        ⟨s', l ++ ⟨b, r, .answered a, v⟩ :: l', ws, os⟩
  | deliver {s l l' ws os b r a} :
      StepOf S Opens Good ⟨s, l ++ ⟨b, r, .answered a, none⟩ :: l', ws, os⟩
        ⟨s, l ++ ⟨b, r, .answered a, some a⟩ :: l', ws, os⟩
  /-- The reply is lost, whether or not the append has taken effect. -/
  | lose {s l l' ws os b r c} {e : DurableBucketStoreError} (hc : c ≠ .unsent) :
      StepOf S Opens Good ⟨s, l ++ ⟨b, r, c, none⟩ :: l', ws, os⟩
        ⟨s, l ++ ⟨b, r, c, some (.error e)⟩ :: l', ws, os⟩
  | spawn {s as ws os} {job : Job} (h : job.Names Good) :
      StepOf S Opens Good ⟨s, as, ws, os⟩ ⟨s, as, Task.init job.prog :: ws, os⟩
  | worker {s s' as ws ws' os os'} {t t' : Task JobResult} {l : Task.Label} (h : t.Step l t')
      (ht : Takes S l s os s' os') :
      StepOf S Opens Good ⟨s, as, ws ++ t :: ws', os⟩ ⟨s', as, ws ++ t' :: ws', os'⟩
  /-- An operation no one waits for takes effect. -/
  | orphan {s s' as ws os os'} {q : Request} {r : q.Reply} (h : S.serve q s r s') :
      StepOf S Opens Good ⟨s, as, ws, os ++ q :: os'⟩ ⟨s', as, ws, os ++ os'⟩

/-- One step where all appends are those of tables. -/
abbrev Step (S : Services) (Good : BucketId → Prop) : System S.State → System S.State → Prop :=
  StepOf S DurableTable.Routes Good

/-- The states a run from `s` reaches. -/
abbrev ReachesOf (S : Services) (Opens : BucketId → Record → Prop) (Good : BucketId → Prop) :
    System S.State → System S.State → Prop :=
  Relation.ReflTransGen (StepOf S Opens Good)

/-- The states a run reaches where all appends are those of tables. -/
abbrev Reaches (S : Services) (Good : BucketId → Prop) : System S.State → System S.State → Prop :=
  Relation.ReflTransGen (Step S Good)

section Appends

variable {S : Services} {Opens Opens' : BucketId → Record → Prop} {Good : BucketId → Prop}
  {s s' : System S.State}

/-- A step of appends of one kind is one of another kind, if the append it begins is. -/
theorem StepOf.imp (h : StepOf S Opens Good s s')
    (hO : ∀ a ∈ s'.appenders, Opens a.bucket a.record → Opens' a.bucket a.record) :
    StepOf S Opens' Good s s' := by
  cases h with
  | openAppend h => exact .openAppend (hO _ (List.mem_cons_self ..) h)
  | send => exact .send
  | serveAppend h => exact .serveAppend h
  | deliver => exact .deliver
  | lose hc => exact .lose hc
  | spawn h => exact .spawn h
  | worker h ht => exact .worker h ht
  | orphan h => exact .orphan h

/-- No append is forgotten. -/
theorem StepOf.appenders (h : StepOf S Opens Good s s') {P : BucketId → Record → Prop}
    (hs : ∀ a ∈ s'.appenders, P a.bucket a.record) : ∀ a ∈ s.appenders, P a.bucket a.record := by
  cases h with
  | openAppend => exact (List.forall_mem_cons.mp hs).2
  | send | serveAppend | deliver | lose =>
      have hold := hs _ (List.mem_append_right _ (List.mem_cons_self ..))
      exact forall_mem_replace hs hold
  | spawn | worker | orphan => exact hs

/-- A run is one of the appends it has in the end. -/
theorem reachesOf_of_appenders {s₀ : System S.State} {P : BucketId → Record → Prop}
    (h : ReachesOf S Opens Good s₀ s) (hs : ∀ a ∈ s.appenders, P a.bucket a.record) :
    ReachesOf S P Good s₀ s := by
  induction h with
  | refl => exact .refl
  | tail _ hstep ih =>
      exact (ih (hstep.appenders hs)).tail (hstep.imp fun a ha _ => hs a ha)

end Appends

end System

end Pulpitum
