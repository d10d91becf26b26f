import Mathlib
import Pulpitum.Support.Pool
import Pulpitum.Application.System

/-!
# Application — Undisturbed

Runs in which one party moves and no one else: an append that is answered and seen, and a worker
whose operations are all answered while its renewer sleeps.

* `archiveBucket_reaches`: a cutover whose operations all succeed.
* `reaches_append`: the append is acknowledged as the store answers it.
* `reaches_job`: **the worker ends, with what its program returns when it is run alone.**
-/

namespace Pulpitum

/-- What a worker may be told whose operations are answered, and whose renewer sleeps until it is
shut down. -/
def Effect.Undisturbed (S : Services) : (e : Effect) → S.State → e.Answer → S.State → Prop
  | .call q, s, r, s' => S.serve q s r s'
  | .supervise q, s, r, s' => ∃ a, r = .ok a ∧ S.serve q s a s'
  | .startRenewer .., s, _, s' => s' = s
  | .shutdown, s, _, s' => s' = s

/-- The same, with the answers of `answer`. -/
def Effect.undisturbed {σ : Type} (answer : (q : Request) → σ → q.Reply × σ) :
    (e : Effect) → σ → e.Answer × σ
  | .call q, s => answer q s
  | .supervise q, s => (.ok (answer q s).1, (answer q s).2)
  | .startRenewer .., s => ((), s)
  | .shutdown, s => ((), s)

/-- Under a renewer, it sleeps; none has failed. -/
def RenewerMode.Quiet : RenewerMode → Renewer → Prop
  | .idle, _ => True
  | .live, r => ∃ session leaseFor, r = .sleeping session leaseFor
  | .lost, _ => False

/-- A step of a worker that leaves nothing behind, and what it means for the stores. -/
inductive Task.Moves (S : Services) (os : List Request) {α : Type} :
    Task α × S.State → Task α × S.State → Prop where
  | step {t t' : Task α} {l : Task.Label} {s s' : S.State} (h : t.Step l t')
      (ht : System.Takes S l s os s' os) : Moves S os (t, s) (t', s')

variable {S : Services}

theorem Effect.undisturbed_serves {answer : (q : Request) → S.State → q.Reply × S.State}
    (ha : ∀ q s, S.serve q s (answer q s).1 (answer q s).2) (e : Effect) (s : S.State) :
    Undisturbed S e s (undisturbed answer e s).1 (undisturbed answer e s).2 := by
  cases e with
  | call q => exact ha q s
  | supervise q => exact ⟨_, rfl, ha q s⟩
  | startRenewer => exact rfl
  | shutdown => exact rfl

/-- A worker that no one disturbs ends. -/
theorem Task.moves_undisturbed (os : List Request) {α : Type} {p : Worker α} {a : α} :
    ∀ {m : RenewerMode} {r : Renewer} {b : Bool} {s s' : S.State}, p.Supervised m → m.Quiet r →
      p.Reaches (Effect.Undisturbed S) s a s' →
      ∃ r' b', Relation.ReflTransGen (Task.Moves S os) (⟨.run p, r, none, b⟩, s)
        (⟨.finished a, r', none, b'⟩, s') := by
  induction p with
  | ret a =>
      rintro m r b s s' - - ⟨rfl, rfl⟩
      exact ⟨_, _, .single (.step .finish .silent)⟩
  | ask e k ih =>
      rintro m r b s s' ⟨hmay, hk⟩ hq ⟨x, s₁, hs, hrest⟩
      cases e with
      | call q =>
          cases m with
          | idle =>
              obtain ⟨r', b', hrun⟩ := ih x (hk x) trivial hrest
              exact ⟨r', b', .head (.step .call .start) (.head (.step .serve (.serve hs))
                (.head (.step .called .silent) hrun))⟩
          | live => exact hmay.elim
          | lost => exact hmay.elim
      | supervise q =>
          obtain ⟨y, rfl, hs⟩ := hs
          cases m with
          | idle => exact hmay.elim
          | live =>
              obtain ⟨r', b', hrun⟩ := ih (.ok y) (hk _) hq hrest
              exact ⟨r', b', .head (.step .look .silent) (.head (.step .select .start)
                (.head (.step .serve (.serve hs)) (.head (.step .selected .silent) hrun)))⟩
          | lost => exact hmay.elim
      | startRenewer session leaseFor interval =>
          obtain rfl : s₁ = s := hs
          cases m with
          | idle =>
              obtain ⟨r', b', hrun⟩ := ih x (hk x) ⟨session, leaseFor, rfl⟩ hrest
              exact ⟨r', b', .head (.step .startRenewer .newRenewer) hrun⟩
          | live => exact hmay.elim
          | lost => exact hmay.elim
      | shutdown =>
          obtain rfl : s₁ = s := hs
          cases m with
          | idle => exact hmay.elim
          | live =>
              obtain ⟨session, leaseFor, rfl⟩ := hq
              obtain ⟨r', b', hrun⟩ := ih x (hk x) trivial hrest
              exact ⟨r', b', .head (.step .shutdown .silent) (.head (.step .renew_stop .silent)
                (.head (.step .stopped .silent) hrun))⟩
          | lost => exact hq.elim

/-- A cutover whose operations all succeed. -/
theorem archiveBucket_reaches {b : BucketId} {session : ArchiveSession} {rs : List Record}
    {key : String} {s s₁ s₂ s₃ s₄ s₅ : S.State}
    (hbegin : S.serve (.store (.beginArchive b)) s (.ok session) s₁)
    (hsnapshot : S.serve (.store (.snapshot session)) s₁ (.ok rs) s₂)
    (hput : S.serve (.archive (.putBucketGeneration b session.generation rs)) s₂ (.ok key) s₃)
    (hpublish : S.serve (.store (.publishArchive session key)) s₃ (.ok ()) s₄)
    (hdelete : S.serve (.store (.deleteHotBucket session)) s₄ (.ok ()) s₅) :
    (Job.archiveBucket b).prog.Reaches (Effect.Undisturbed S) s
      (.archived (.ok ⟨b, key, rs.length⟩)) s₅ :=
  ⟨_, _, hbegin, (), _, rfl, _, _, ⟨_, rfl, hsnapshot⟩, _, _, ⟨_, rfl, hput⟩, _, _,
    ⟨_, rfl, hpublish⟩, _, _, ⟨_, rfl, hdelete⟩, (), _, rfl, rfl, rfl⟩

namespace System

variable {Opens : BucketId → Record → Prop} {Good : BucketId → Prop} {s s' : S.State}
  {as : List Appender} {ws : List (Task JobResult)} {os : List Request}

/-- An append that is answered, and whose caller sees the answer. -/
theorem reaches_append {b : BucketId} {r : Record} {a : Except DurableBucketStoreError Unit}
    (h : Opens b r) (hs : S.serve (.store (.append b r)) s a s') :
    ReachesOf S Opens Good ⟨s, as, ws, os⟩ ⟨s', ⟨b, r, .answered a, some a⟩ :: as, ws, os⟩ :=
  .tail (.tail (.tail (.single (.openAppend h)) (.send (l := []))) (.serveAppend (l := []) hs))
    (.deliver (l := []))

/-- What a worker does by itself it does in the system. -/
theorem reaches_moves {x y : Task JobResult × S.State}
    (h : Relation.ReflTransGen (Task.Moves S os) x y) :
    ReachesOf S Opens Good ⟨x.2, as, x.1 :: ws, os⟩ ⟨y.2, as, y.1 :: ws, os⟩ := by
  induction h with
  | refl => exact .refl
  | tail _ hstep ih =>
      obtain ⟨hstep, ht⟩ := hstep
      exact ih.tail (@StepOf.worker S _ _ _ _ _ [] _ _ _ _ _ _ hstep ht)

/-- **A worker that no one disturbs ends**, with what its program returns. -/
theorem reaches_job {job : Job} {a : JobResult} (hj : job.Names Good)
    (h : job.prog.Reaches (Effect.Undisturbed S) s a s') :
    ∃ t : Task JobResult, t.phase = .finished a ∧
      ReachesOf S Opens Good ⟨s, as, ws, os⟩ ⟨s', as, t :: ws, os⟩ := by
  obtain ⟨r, b, hrun⟩ := Task.moves_undisturbed os job.follows trivial h
  exact ⟨_, rfl, .head (.spawn hj) (reaches_moves hrun)⟩

end System

end Pulpitum
