import Mathlib
import Pulpitum.Application.Tasks

/-!
# Application — Renewer

What a renewal failure stops.  The workers use their renewer by a protocol: operations on a
session are awaited under the renewer only, and an operation that is answered with the renewal
failure is followed by the shutdown of the renewer and nothing else.

* `Job.follows`: every worker follows the protocol.
* `failure_stops_worker_iff`: once the renewer has sent its failure, the worker starts no further
  operation on the session, **exactly when** it was not exposed at that moment.  A worker that is
  between two operations finds the failure first and drains the operation it was about to start; a
  poll that has looked at the channel polls its operation all the same, and if that is ready the
  worker goes on to the next one.
-/

namespace Pulpitum

/-! ### The workers -/

/-- What a worker is called to do. -/
inductive Job where
  | archiveBucket (bucket : BucketId)
  | runOnce (cfg : ArchiveRecoveryConfig)

/-- What a worker returns. -/
inductive JobResult where
  | archived (result : Except DurableArchiveError ArchiveOutcome)
  | recovered (result : Except ArchiveRecoveryError ArchiveRecoveryOutcome)

/-- The program of a worker. -/
def Job.prog : Job → Worker JobResult
  | archiveBucket bucket => do return .archived (← Pulpitum.archiveBucket bucket)
  | runOnce cfg => do return .recovered (← Pulpitum.runOnce cfg)

/-! ### The protocol -/

/-- The operation looks for work or claims it; every other operation of a worker is on a session. -/
def Request.Opens : Request → Prop
  | store (.discoverArchiveWork _) | store (.claimArchive ..) | store (.claimCleanup ..)
  | store (.beginArchive _) => True
  | _ => False

/-- Without a renewer, under one, and after its failure was received. -/
inductive RenewerMode where
  | idle
  | live
  | lost

/-- How the workers use the renewer. -/
def renewerProtocol : Protocol Effect.Answer where
  Mode := RenewerMode
  may
    | .idle, .call q => q.Opens
    | .idle, .startRenewer .. => True
    | .live, .supervise q => ¬ q.Opens
    | .live, .shutdown => True
    | .lost, .shutdown => True
    | _, _ => False
  after
    | .live, .supervise _, .ok _ => .live
    | .live, .supervise _, .error _ => .lost
    | _, .startRenewer .., _ => .live
    | _, .shutdown, _ => .idle
    | m, _, _ => m

/-- The program follows the protocol from the mode `m`, and ends without a renewer. -/
abbrev Worker.Supervised {α : Type} (m : RenewerMode) (p : Worker α) : Prop :=
  p.Follows renewerProtocol m fun _ m => m = RenewerMode.idle

/-- The program follows the protocol under the renewer, and leaves it to be shut down. -/
abbrev Worker.UnderRenewer {α : Type} (p : Worker α) : Prop :=
  p.Follows renewerProtocol RenewerMode.live fun _ m => m ≠ RenewerMode.idle

namespace Worker

theorem abortWith_underRenewer (session : ArchiveSession) (error : DurableArchiveError) :
    (abortWith session error).UnderRenewer := by
  refine ⟨id, fun r => ?_⟩
  rcases r with e | e | ⟨⟩ <;> exact RenewerMode.noConfusion

theorem archiveClaimedBucket_underRenewer (bucket : BucketId) (session : ArchiveSession) :
    (archiveClaimedBucket bucket session).UnderRenewer := by
  refine ⟨id, fun r => ?_⟩
  rcases r with e | e | records
  · exact RenewerMode.noConfusion
  · exact abortWith_underRenewer session _
  refine ⟨id, fun r => ?_⟩
  rcases r with e | e | key
  · exact RenewerMode.noConfusion
  · exact abortWith_underRenewer session _
  refine ⟨id, fun r => ?_⟩
  rcases r with e | e | ⟨⟩
  · exact RenewerMode.noConfusion
  · exact RenewerMode.noConfusion
  refine ⟨id, fun r => ?_⟩
  rcases r with e | e | ⟨⟩ <;> exact RenewerMode.noConfusion

/-- Work under the renewer is followed by its shutdown. -/
theorem supervised_of_underRenewer {α : Type} {p : Worker α} (h : p.UnderRenewer) :
    (do let result ← p; shutdown; return result : Worker α).Supervised .live := by
  refine Prog.Follows.bind (h.imp fun a m hm => ?_)
  cases m with
  | idle => exact absurd rfl hm
  | live => exact ⟨trivial, fun _ => rfl⟩
  | lost => exact ⟨trivial, fun _ => rfl⟩

theorem archiveBucket_supervised (bucket : BucketId) :
    (archiveBucket bucket).Supervised .idle := by
  refine ⟨trivial, fun r => ?_⟩
  rcases r with e | session
  · exact rfl
  · exact ⟨trivial, fun _ =>
      supervised_of_underRenewer (archiveClaimedBucket_underRenewer bucket session)⟩

section

variable (cfg : ArchiveRecoveryConfig) (bucket : BucketId) (session : ArchiveSession)
  (outcome : ArchiveRecoveryOutcome)

theorem deferCutover_underRenewer (error : DurableBucketStoreError) :
    (deferCutover cfg session outcome error).UnderRenewer := by
  refine ⟨id, fun r => ?_⟩
  rcases r with e | e | ⟨⟩ <;> exact RenewerMode.noConfusion

theorem finishCleanup_underRenewer : (finishCleanup cfg session outcome).UnderRenewer := by
  refine ⟨id, fun r => ?_⟩
  rcases r with e | e | ⟨⟩
  · exact RenewerMode.noConfusion
  · refine ⟨id, fun r => ?_⟩
    rcases r with e | e | ⟨⟩ <;> exact RenewerMode.noConfusion
  · exact RenewerMode.noConfusion

theorem publishClaimedCutover_underRenewer (key : String) :
    (publishClaimedCutover cfg bucket session outcome key).UnderRenewer := by
  refine ⟨id, fun r => ?_⟩
  rcases r with e | e | ⟨⟩
  · exact RenewerMode.noConfusion
  · refine ⟨id, fun r => ?_⟩
    rcases r with e' | e' | _ | _ | ⟨_, _ | _⟩
    · exact RenewerMode.noConfusion
    · exact RenewerMode.noConfusion
    · exact RenewerMode.noConfusion
    · exact deferCutover_underRenewer cfg session outcome e
    · exact finishCleanup_underRenewer cfg session outcome
    · exact RenewerMode.noConfusion
  · exact finishCleanup_underRenewer cfg session outcome

theorem recoverClaimedCutover_underRenewer :
    (recoverClaimedCutover cfg bucket session outcome).UnderRenewer := by
  refine ⟨id, fun r => ?_⟩
  rcases r with e | e | records
  · exact RenewerMode.noConfusion
  · exact deferCutover_underRenewer cfg session outcome e
  refine ⟨id, fun r => ?_⟩
  rcases r with e | e | key
  · exact RenewerMode.noConfusion
  · refine Prog.Follows.bind (p := deferCutover cfg session outcome .operationFailed)
      ((deferCutover_underRenewer cfg session outcome _).imp ?_)
    rintro ⟨_ | _, _⟩ m hm <;> exact hm
  · exact publishClaimedCutover_underRenewer cfg bucket session outcome key

theorem recoverCutover_supervised : (recoverCutover cfg bucket outcome).Supervised .idle := by
  refine ⟨trivial, fun r => ?_⟩
  rcases r with e | _ | session
  · exact rfl
  · exact rfl
  · exact ⟨trivial, fun _ =>
      supervised_of_underRenewer (recoverClaimedCutover_underRenewer cfg bucket session _)⟩

theorem recoverCleanup_supervised : (recoverCleanup cfg bucket outcome).Supervised .idle := by
  refine ⟨trivial, fun r => ?_⟩
  rcases r with e | _ | session
  · exact rfl
  · exact rfl
  · exact ⟨trivial, fun _ => supervised_of_underRenewer (finishCleanup_underRenewer cfg session _)⟩

theorem runItems_supervised (work : List ArchiveWork) :
    ∀ outcome, (runItems cfg work outcome).Supervised .idle := by
  induction work with
  | nil => exact fun _ => rfl
  | cons item work ih =>
      intro outcome
      -- the rest of the loop follows an item that left no renewer
      have hrest : ∀ (a : Recovery) m, m = RenewerMode.idle →
          (runRest cfg work a).Supervised m := by
        rintro ⟨_ | ⟨⟩, outcome'⟩ m rfl
        · exact rfl
        · exact ih outcome'
      cases item with
      | cutover b =>
          exact Prog.Follows.bind ((recoverCutover_supervised cfg b outcome).imp hrest)
      | cleanup b =>
          exact Prog.Follows.bind ((recoverCleanup_supervised cfg b outcome).imp hrest)

theorem runOnce_supervised : (runOnce cfg).Supervised .idle := by
  refine ⟨trivial, fun r => ?_⟩
  rcases r with e | work
  · exact rfl
  · exact runItems_supervised cfg work _

end

end Worker

/-- **Every worker follows the protocol of the renewer.** -/
theorem Job.follows (job : Job) : job.prog.Supervised .idle := by
  cases job with
  | archiveBucket bucket =>
      exact Prog.Follows.bind ((Worker.archiveBucket_supervised bucket).imp fun _ _ h => h)
  | runOnce cfg => exact Prog.Follows.bind ((Worker.runOnce_supervised cfg).imp fun _ _ h => h)

/-! ### What holds of a running worker -/

/-- The renewer may still send a failure. -/
def Renewer.Alive : Renewer → Prop
  | sleeping .. | renewing .. => True
  | absent | ended => False

/-- The operation may still be answered with `r`: it is under way, or its answer is `r`, or `r` is a
failure that stands for its answer being lost. -/
def Flight.Gets {q : Request} : Flight q → q.Reply → Prop
  | .pending, _ => True
  | .answered r', r => r = r' ∨ q.Failed r

namespace Task

variable {α : Type}

/-- What holds of a worker in every state of a run: what is left of its program follows the
protocol, and its mode fits the renewer. -/
def Disciplined (t : Task α) : Prop :=
  (t.renewer.Alive → t.failure = none) ∧
    match t.phase with
    | .run p => ∃ m, p.Supervised m ∧ (t.renewer.Alive → m = .live)
    | .awaiting _ (.called k) _ => ¬ t.renewer.Alive ∧ ∀ r, (k r).Supervised .idle
    | .awaiting _ (.selecting k) _ | .awaiting _ (.polling k) _ =>
        (∀ r, (k (.ok r)).Supervised .live) ∧ ∀ e, (k (.error e)).Supervised .lost
    | .looked q k =>
        ¬ q.Opens ∧ (∀ r, (k (.ok r)).Supervised .live) ∧ ∀ e, (k (.error e)).Supervised .lost
    | .awaiting _ (.draining k e) _ | .unpolled _ k e =>
        ¬ t.renewer.Alive ∧ (k (.error e)).Supervised .lost
    | .stopping k => (k ()).Supervised .idle
    | .finished _ | .crashed => True

namespace Disciplined

theorem init {p : Worker α} (h : p.Supervised .idle) : (Task.init p).Disciplined :=
  ⟨fun _ => rfl, .idle, h, False.elim⟩

/-- The renewer goes on, keeping its channel, or ends. -/
theorem renewer {p : Phase α} {r r' : Renewer} {f f' : Option DurableBucketStoreError}
    {b b' : Bool} (h : Disciplined ⟨p, r, f, b⟩) (hr : r'.Alive → r.Alive ∧ f' = f) :
    Disciplined ⟨p, r', f', b'⟩ := by
  obtain ⟨hf, hp⟩ := h
  have hdead : ¬ r.Alive → ¬ r'.Alive := fun hn ha => hn (hr ha).1
  refine ⟨fun ha => (hr ha).2.trans (hf (hr ha).1), ?_⟩
  match p, hp with
  | .run _, ⟨m, hm, hl⟩ => exact ⟨m, hm, fun ha => hl (hr ha).1⟩
  | .awaiting _ (.called _) _, ⟨hn, hk⟩ => exact ⟨hdead hn, hk⟩
  | .awaiting _ (.selecting _) _, hk => exact hk
  | .awaiting _ (.polling _) _, hk => exact hk
  | .looked .., hk => exact hk
  | .awaiting _ (.draining ..) _, ⟨hn, hk⟩ => exact ⟨hdead hn, hk⟩
  | .unpolled .., ⟨hn, hk⟩ => exact ⟨hdead hn, hk⟩
  | .stopping _, hk => exact hk
  | .finished _, _ => trivial
  | .crashed, _ => trivial

/-- The answer to an operation does not matter to the discipline. -/
theorem flight {q : Request} {w : Wait q α} {g g' : Flight q} {r : Renewer}
    {f : Option DurableBucketStoreError} {b : Bool} (h : Disciplined ⟨.awaiting q w g, r, f, b⟩) :
    Disciplined ⟨.awaiting q w g', r, f, b⟩ := by
  obtain ⟨hf, hp⟩ := h
  cases w <;> exact ⟨hf, hp⟩

/-- **One step keeps the discipline.** -/
theorem step {t t' : Task α} {l : Label} (h : t.Disciplined) (hs : Step t l t') :
    t'.Disciplined := by
  cases hs with
  | call =>
      obtain ⟨hf, m, ⟨hq, hk⟩, hl⟩ := h
      cases m with
      | idle =>
          have hn : ¬ _ := fun ha => nomatch hl ha
          exact ⟨hf, hn, hk⟩
      | live => exact hq.elim
      | lost => exact hq.elim
  | called =>
      obtain ⟨hf, hn, hk⟩ := h
      exact ⟨hf, .idle, hk _, fun ha => absurd ha hn⟩
  | look =>
      obtain ⟨hf, m, ⟨hq, hk⟩, hl⟩ := h
      cases m with
      | live => exact ⟨hf, hq, fun r => hk (.ok r), fun e => hk (.error e)⟩
      | idle => exact hq.elim
      | lost => exact hq.elim
  | select => exact ⟨h.1, h.2.2⟩
  | park => exact h
  | poll => exact h
  | selected =>
      obtain ⟨hf, hok, -⟩ := h
      exact ⟨hf, .live, hok _, fun _ => rfl⟩
  | select_failed =>
      obtain ⟨hf, -, herr⟩ := h
      have hn : ¬ _ := fun ha => nomatch hf ha
      exact ⟨fun ha => absurd ha hn, hn, herr _⟩
  | first_failed =>
      obtain ⟨hf, m, ⟨hq, hk⟩, hl⟩ := h
      have hn : ¬ _ := fun ha => nomatch hf ha
      cases m with
      | live => exact ⟨fun ha => absurd ha hn, hn, hk (.error _)⟩
      | idle => exact hq.elim
      | lost => exact hq.elim
  | drain => exact h
  | drained =>
      obtain ⟨hf, hn, hk⟩ := h
      exact ⟨hf, .lost, hk, fun ha => absurd ha hn⟩
  | startRenewer =>
      obtain ⟨-, m, ⟨hq, hk⟩, -⟩ := h
      cases m with
      | idle => exact ⟨fun _ => rfl, .live, hk (), fun _ => rfl⟩
      | live => exact hq.elim
      | lost => exact hq.elim
  | shutdown =>
      obtain ⟨hf, m, ⟨hq, hk⟩, -⟩ := h
      cases m with
      | idle => exact hq.elim
      | live => exact ⟨hf, hk ()⟩
      | lost => exact ⟨hf, hk ()⟩
  | stopped =>
      obtain ⟨hf, hk⟩ := h
      exact ⟨hf, .idle, hk, False.elim⟩
  | finish => exact ⟨h.1, trivial⟩
  | serve => exact h.flight
  | abandon => exact h.flight
  | lose => exact h.flight
  | crash => exact ⟨h.1, trivial⟩
  | crash_abandon => exact ⟨h.1, trivial⟩
  | renew => exact h.renewer fun _ => ⟨trivial, rfl⟩
  | renew_stop => exact h.renewer False.elim
  | renew_serve => exact h.renewer fun _ => ⟨trivial, rfl⟩
  | renew_abandon => exact h.renewer fun _ => ⟨trivial, rfl⟩
  | renew_lose => exact h.renewer fun _ => ⟨trivial, rfl⟩
  | renewed => exact h.renewer fun _ => ⟨trivial, rfl⟩
  | renew_failed => exact h.renewer False.elim

/-- A worker keeps the discipline through a whole run. -/
theorem run {job : Job} {ls : List Label} {t : Task JobResult}
    (h : Run Step (Task.init job.prog) ls t) : t.Disciplined :=
  Run.invariant (I := Disciplined) (fun _ _ _ => step) h (init job.follows)

end Disciplined

/-! ### After the failure -/

/-- The next thing the program does is to enter `supervise` with an operation. -/
def Supervises (p : Worker α) : Prop := ∃ q k, p = .ask (.supervise q) k

/-- A worker to which a failure comes too late to stop it: it is about to enter `supervise`, it is
in the first poll of it and has looked at the channel already, or it is in a poll that has, and the
operation can be answered in that poll so that the worker goes on to another one. -/
def Exposed (t : Task α) : Prop :=
  match t.phase with
  | .run p => Supervises p
  | .looked .. => True
  | .awaiting _ (.polling k) g => ∃ a, g.Gets a ∧ Supervises (k (.ok a))
  | _ => False

/-- After the failure: the worker will receive it before it polls another operation on the
session, or has none left. -/
def Warned (t : Task α) : Prop :=
  t.renewer = .ended ∧
    match t.phase with
    | .run p => ∃ m, m ≠ RenewerMode.live ∧ p.Supervised m
    | .awaiting _ (.called k) _ => ∀ r, (k r).Supervised .idle
    | .awaiting _ (.selecting k) _ => t.failure.isSome ∧ ∀ e, (k (.error e)).Supervised .lost
    | .awaiting _ (.polling k) g =>
        (t.failure.isSome ∧ ∀ e, (k (.error e)).Supervised .lost) ∧
          ∀ a, g.Gets a → ∃ m, m ≠ RenewerMode.live ∧ (k (.ok a)).Supervised m
    | .awaiting _ (.draining k e) _ => (k (.error e)).Supervised .lost
    | .looked .. | .unpolled .. => False
    | .stopping k => (k ()).Supervised .idle
    | .finished _ | .crashed => True

/-- A worker under the renewer that does not go on to an operation shuts the renewer down. -/
theorem supervised_lost {p : Worker α} (h : p.Supervised .live) (hn : ¬ Supervises p) :
    p.Supervised .lost := by
  match p, h with
  | .ret a, h => cases h
  | .ask (.supervise q) k, _ => exact absurd ⟨q, k, rfl⟩ hn
  | .ask (.call _) _, ⟨hq, _⟩ => exact hq.elim
  | .ask (.startRenewer ..) _, ⟨hq, _⟩ => exact hq.elim
  | .ask .shutdown k, ⟨_, hk⟩ => exact ⟨trivial, hk⟩

/-- A failure sent to a worker that is not exposed warns it. -/
theorem warned_of_failed {t t' : Task α} {e : DurableBucketStoreError} (h : t.Disciplined)
    (hs : Step t (.failed e) t') (hn : ¬ t.Exposed) : t'.Warned := by
  cases hs with
  | @renew_failed p =>
      obtain ⟨-, hp⟩ := h
      refine ⟨rfl, ?_⟩
      match p, hp, hn with
      | .run p, ⟨m, hm, hl⟩, hn =>
          obtain rfl := hl trivial
          exact ⟨.lost, RenewerMode.noConfusion, supervised_lost hm hn⟩
      | .awaiting _ (.called _) _, ⟨hd, _⟩, _ => exact absurd trivial hd
      | .awaiting _ (.selecting _) _, ⟨_, hk⟩, _ => exact ⟨rfl, hk⟩
      | .awaiting _ (.polling _) _, ⟨hok, hk⟩, hn =>
          exact ⟨⟨rfl, hk⟩, fun a ha =>
            ⟨.lost, RenewerMode.noConfusion, supervised_lost (hok a) fun hs => hn ⟨a, ha, hs⟩⟩⟩
      | .looked .., _, hn => exact absurd trivial hn
      | .awaiting _ (.draining ..) _, ⟨hd, _⟩, _ => exact absurd trivial hd
      | .unpolled .., ⟨hd, _⟩, _ => exact absurd trivial hd
      | .stopping _, hk, _ => exact hk
      | .finished _, _, _ => trivial
      | .crashed, _, _ => trivial

/-- The step starts no operation on a session. -/
def Label.Harmless : Label → Prop
  | start q => q.Opens
  | _ => True

namespace Warned

theorem flight {q : Request} {w : Wait q α} {g g' : Flight q} {r : Renewer}
    {f : Option DurableBucketStoreError} {b : Bool} (h : Warned ⟨.awaiting q w g, r, f, b⟩)
    (hg : ∀ a, g'.Gets a → g.Gets a) : Warned ⟨.awaiting q w g', r, f, b⟩ := by
  obtain ⟨hr, hp⟩ := h
  cases w with
  | polling k => exact ⟨hr, hp.1, fun a ha => hp.2 a (hg a ha)⟩
  | called k => exact ⟨hr, hp⟩
  | selecting k => exact ⟨hr, hp⟩
  | draining k e => exact ⟨hr, hp⟩

/-- **A step of a warned worker** leaves it warned, and starts no operation on a session, unless a
new renewer is started. -/
theorem step {t t' : Task α} {l : Label} (h : t.Warned) (hs : Step t l t') (hl : l ≠ .newRenewer) :
    t'.Warned ∧ l.Harmless := by
  cases hs with
  | call =>
      obtain ⟨hr, m, -, hq, hk⟩ := h
      cases m with
      | idle => exact ⟨⟨hr, hk⟩, hq⟩
      | live => exact hq.elim
      | lost => exact hq.elim
  | called =>
      obtain ⟨hr, hk⟩ := h
      exact ⟨⟨hr, .idle, RenewerMode.noConfusion, hk _⟩, trivial⟩
  | look | first_failed =>
      obtain ⟨-, m, hm, hq, -⟩ := h
      cases m with
      | live => exact absurd rfl hm
      | idle => exact hq.elim
      | lost => exact hq.elim
  | select => exact h.2.elim
  | park => exact ⟨⟨h.1, h.2.1⟩, trivial⟩
  | poll => exact nomatch h.2.1
  | selected =>
      obtain ⟨hr, -, hok⟩ := h
      exact ⟨⟨hr, hok _ (.inl rfl)⟩, trivial⟩
  | select_failed =>
      obtain ⟨hr, -, hk⟩ := h
      exact ⟨⟨hr, hk _⟩, trivial⟩
  | drain => exact h.2.elim
  | drained =>
      obtain ⟨hr, hk⟩ := h
      exact ⟨⟨hr, .lost, RenewerMode.noConfusion, hk⟩, trivial⟩
  | startRenewer => exact absurd rfl hl
  | shutdown =>
      obtain ⟨hr, m, -, hq, hk⟩ := h
      cases m with
      | idle => exact hq.elim
      | live => exact ⟨⟨hr, hk ()⟩, trivial⟩
      | lost => exact ⟨⟨hr, hk ()⟩, trivial⟩
  | stopped =>
      obtain ⟨hr, hk⟩ := h
      exact ⟨⟨hr, .idle, RenewerMode.noConfusion, hk⟩, trivial⟩
  | finish => exact ⟨⟨h.1, trivial⟩, trivial⟩
  | serve => exact ⟨h.flight fun _ _ => trivial, trivial⟩
  | abandon => exact ⟨h.flight fun _ _ => trivial, trivial⟩
  | lose hfail =>
      refine ⟨h.flight fun a ha => ?_, trivial⟩
      rcases ha with rfl | ha
      · exact .inr hfail
      · exact .inr ha
  | crash => exact ⟨⟨h.1, trivial⟩, trivial⟩
  | crash_abandon => exact ⟨⟨h.1, trivial⟩, trivial⟩
  | renew | renew_stop | renew_serve | renew_abandon | renew_lose | renewed | renew_failed =>
      cases h.1

/-- A warned worker starts only operations that look for new work, until a new renewer is
started. -/
theorem run {t t' : Task α} {ls : List Label} (hr : Run Step t ls t') :
    t.Warned → ∀ {l₁ l₂ q}, ls = l₁ ++ .start q :: l₂ → .newRenewer ∉ l₁ → q.Opens := by
  induction hr with
  | refl => exact fun _ _ _ _ hls => absurd hls.symm (List.append_ne_nil_of_right_ne_nil _ nofun)
  | @more s s₁ s' a l hs _ ih =>
      intro hw l₁ l₂ q hls hnew
      cases l₁ with
      | nil =>
          obtain ⟨rfl, rfl⟩ := List.cons.inj hls
          exact (hw.step hs Label.noConfusion).2
      | cons c l₁ =>
          obtain ⟨rfl, rfl⟩ := List.cons.inj hls
          simp only [List.mem_cons, not_or] at hnew
          exact ih (hw.step hs (Ne.symm hnew.1)).1 rfl hnew.2

end Warned

/-- An answer that an operation may still get, it can get next. -/
theorem run_to_answered {q : Request} {w : Wait q α} {g : Flight q} {a : q.Reply} (ha : g.Gets a)
    (r : Renewer) (f : Option DurableBucketStoreError) (b : Bool) :
    ∃ ls, Run Step ⟨.awaiting q w g, r, f, b⟩ ls ⟨.awaiting q w (.answered a), r, f, b⟩ ∧
      .newRenewer ∉ ls := by
  cases g with
  | pending => exact ⟨_, .one .serve, by simp⟩
  | answered a' =>
      rcases ha with rfl | hfail
      · exact ⟨_, .refl _, List.not_mem_nil⟩
      · exact ⟨_, .one (.lose hfail), by simp⟩

/-- A worker that goes on to an operation after the failure was sent starts it. -/
theorem run_to_drained {p : Worker α} (hp : p.Supervised .live) (hs : Supervises p) (r : Renewer)
    (e : DurableBucketStoreError) (b : Bool) :
    ∃ q t, ¬ q.Opens ∧ Run Step ⟨.run p, r, some e, b⟩ [.silent, .start q] t := by
  obtain ⟨q, k, rfl⟩ := hs
  -- the first poll finds the failure, and the drain starts the operation
  exact ⟨q, _, hp.1, .more .first_failed (.one .drain)⟩

/-- An exposed worker starts another operation on the session in some continuation of the run. -/
theorem starts_of_exposed {t t' : Task α} {e : DurableBucketStoreError} (h : t.Disciplined)
    (hs : Step t (.failed e) t') (hx : t.Exposed) :
    ∃ l q t'', ¬ q.Opens ∧ .newRenewer ∉ l ∧ Run Step t' (l ++ [.start q]) t'' := by
  cases hs with
  | @renew_failed p s d f b =>
      obtain ⟨-, hp⟩ := h
      cases p with
      | run p =>
          obtain ⟨m, hm, hl⟩ := hp
          obtain rfl := hl trivial
          obtain ⟨q, t'', hq, hrun⟩ := run_to_drained hm hx .ended e b
          exact ⟨[.silent], q, t'', hq, by simp, hrun⟩
      | looked q k => exact ⟨[], q, _, hp.1, List.not_mem_nil, .one .select⟩
      | awaiting q w g =>
          cases w with
          | polling k =>
              obtain ⟨a, ha, hx⟩ := hx
              obtain ⟨ls, hfirst, hnew⟩ := run_to_answered (w := .polling k) ha .ended (some e) b
              obtain ⟨q, t'', hq, hrun⟩ := run_to_drained (hp.1 a) hx .ended e b
              refine ⟨ls ++ [.silent, .silent], q, t'', hq, by simpa using hnew, ?_⟩
              rw [List.append_assoc]
              exact hfirst.trans (.more .selected hrun)
          | called | selecting | draining => exact hx.elim
      | unpolled | stopping | finished | crashed => exact hx.elim

/-- **A lost lease stops the worker, unless it is exposed.**  Once the renewer has sent its failure,
the worker starts no further operation on the session, in any continuation of the run, if and only
if it was not exposed when the failure was sent. -/
theorem failure_stops_worker_iff (job : Job) {ls : List Label} {t t' : Task JobResult}
    {e : DurableBucketStoreError} (hrun : Run Step (Task.init job.prog) ls t)
    (hfail : Step t (.failed e) t') :
    (∀ ls' t'', Run Step t' ls' t'' → ∀ l₁ l₂ q, ls' = l₁ ++ .start q :: l₂ →
      .newRenewer ∉ l₁ → q.Opens) ↔ ¬ t.Exposed := by
  have hd : t.Disciplined := Disciplined.run hrun
  constructor
  · intro hall hx
    obtain ⟨l, q, t'', hq, hnew, hrun'⟩ := starts_of_exposed hd hfail hx
    exact hq (hall _ t'' hrun' l [] q rfl hnew)
  · intro hn ls' t'' hrun' l₁ l₂ q hls hnew
    exact Warned.run hrun' (warned_of_failed hd hfail hn) hls hnew

open Sample (bucket session)

/-- The snapshot is under way when the renewal is answered with a failure. -/
def lostInSnapshot : List Label :=
  [.start (.store (.beginArchive bucket)), .serve (.store (.beginArchive bucket)) (.ok session),
    .silent, .newRenewer, .silent, .start (.store (.snapshot session)), .silent, .silent,
    .serve (.store (.renewArchiveLease session directArchiveLease)) (.error .staleArchiveSession)]

/-- The last operation is answered and polled when it is. -/
def lostInDelete : List Label :=
  [.start (.store (.beginArchive bucket)), .serve (.store (.beginArchive bucket)) (.ok session),
    .silent, .newRenewer, .silent, .start (.store (.snapshot session)),
    .serve (.store (.snapshot session)) (.ok []), .silent, .silent,
    .start (.archive (.putBucketGeneration bucket 1 [])),
    .serve (.archive (.putBucketGeneration bucket 1 [])) (.ok "key"), .silent, .silent,
    .start (.store (.publishArchive session "key")),
    .serve (.store (.publishArchive session "key")) (.ok ()), .silent, .silent,
    .start (.store (.deleteHotBucket session)), .silent, .silent,
    .serve (.store (.renewArchiveLease session directArchiveLease)) (.error .staleArchiveSession),
    .serve (.store (.deleteHotBucket session)) (.ok ()), .silent]

/-- A worker whose lease is lost while it waits for its snapshot starts nothing more; nor does one
whose lease is lost in the poll in which its last operation is answered. -/
theorem failure_stops_worker_iff_of_archiveBucket :
    (∃ t t' : Task JobResult,
      Run Step (Task.init (Job.archiveBucket bucket).prog) lostInSnapshot t ∧
      Step t (.failed .staleArchiveSession) t' ∧
      ∀ ls t'', Run Step t' ls t'' → ∀ l₁ l₂ q, ls = l₁ ++ .start q :: l₂ →
        .newRenewer ∉ l₁ → q.Opens) ∧
    ∃ t t' : Task JobResult,
      Run Step (Task.init (Job.archiveBucket bucket).prog) lostInDelete t ∧
      Step t (.failed .staleArchiveSession) t' ∧
      ∀ ls t'', Run Step t' ls t'' → ∀ l₁ l₂ q, ls = l₁ ++ .start q :: l₂ →
        .newRenewer ∉ l₁ → q.Opens := by
  have hsnapshot : ∃ t, Run Step (Task.init (Job.archiveBucket bucket).prog) lostInSnapshot t ∧
      ∃ t', Step t (.failed .staleArchiveSession) t' ∧ ¬ t.Exposed :=
    ⟨_, .more .call (.more .serve (.more .called (.more .startRenewer (.more .look (.more .select
      (.more .park (.more .renew (.one .renew_serve)))))))), _, .renew_failed, id⟩
  have hdelete : ∃ t, Run Step (Task.init (Job.archiveBucket bucket).prog) lostInDelete t ∧
      ∃ t', Step t (.failed .staleArchiveSession) t' ∧ ¬ t.Exposed := by
    refine ⟨_, .more .call (.more .serve (.more .called (.more .startRenewer
      (.more .look (.more .select (.more .serve (.more .selected
      (.more .look (.more .select (.more .serve (.more .selected
      (.more .look (.more .select (.more .serve (.more .selected
      (.more .look (.more .select (.more .park (.more .renew (.more .renew_serve
      (.more .serve (.one .poll)))))))))))))))))))))), _, .renew_failed, ?_⟩
    -- whatever the deletion is answered, the renewer is shut down next
    rintro ⟨a, -, q, k, h⟩
    rcases a with e | ⟨⟩ <;> cases h
  obtain ⟨t, hrun, t', hfail, hn⟩ := hsnapshot
  obtain ⟨u, hrun', u', hfail', hn'⟩ := hdelete
  exact ⟨⟨t, t', hrun, hfail, (failure_stops_worker_iff _ hrun hfail).mpr hn⟩,
    ⟨u, u', hrun', hfail', (failure_stops_worker_iff _ hrun' hfail').mpr hn'⟩⟩

/-- The lease is lost when the upload has returned and `supervise` has not yet been entered again,
or when the poll that finds the upload answered has looked at the channel already: the worker
publishes all the same. -/
theorem publish_starts_after_failure :
    (∃ t, Run Step (Task.init (Job.archiveBucket bucket).prog)
      [.start (.store (.beginArchive bucket)),
        .serve (.store (.beginArchive bucket)) (.ok session), .silent, .newRenewer, .silent,
        .start (.store (.snapshot session)), .serve (.store (.snapshot session)) (.ok []), .silent,
        .silent, .start (.archive (.putBucketGeneration bucket 1 [])),
        .serve (.archive (.putBucketGeneration bucket 1 [])) (.ok "key"), .silent, .silent,
        .serve (.store (.renewArchiveLease session directArchiveLease))
          (.error .staleArchiveSession),
        .failed .staleArchiveSession, .silent,
        .start (.store (.publishArchive session "key"))] t) ∧
    ∃ t, Run Step (Task.init (Job.archiveBucket bucket).prog)
      [.start (.store (.beginArchive bucket)),
        .serve (.store (.beginArchive bucket)) (.ok session), .silent, .newRenewer, .silent,
        .start (.store (.snapshot session)), .serve (.store (.snapshot session)) (.ok []), .silent,
        .silent, .start (.archive (.putBucketGeneration bucket 1 [])), .silent,
        .serve (.archive (.putBucketGeneration bucket 1 [])) (.ok "key"), .silent, .silent,
        .serve (.store (.renewArchiveLease session directArchiveLease))
          (.error .staleArchiveSession),
        .failed .staleArchiveSession, .silent, .silent,
        .start (.store (.publishArchive session "key"))] t := by
  constructor
  · exact ⟨_, .more .call (.more .serve (.more .called (.more .startRenewer
      (.more .look (.more .select (.more .serve (.more .selected
      (.more .look (.more .select (.more .serve (.more .selected
      (.more .renew (.more .renew_serve (.more .renew_failed
      (.more .first_failed (.one .drain))))))))))))))))⟩
  · exact ⟨_, .more .call (.more .serve (.more .called (.more .startRenewer
      (.more .look (.more .select (.more .serve (.more .selected
      (.more .look (.more .select (.more .park (.more .serve (.more .poll
      (.more .renew (.more .renew_serve (.more .renew_failed (.more .selected
      (.more .first_failed (.one .drain))))))))))))))))))⟩

end Task

end Pulpitum
