import Mathlib
import Pulpitum.Application.Programs

/-!
# Application — Recovery outcome

What one cycle of `run_once` tries and reports, whatever the stores and the renewers answer.  A
history is the list of the operations of the cycle with their answers.

* `runItems_ends`: the items that are tried are the first ones discovered, in their order, and
  one that fails ends the cycle.
* `covers_iff`: **all of them are tried and accounted for iff no operation fails.**
-/

namespace Pulpitum

/-- The answer lets the item go on.  A failed publication does if the state that is read after it
is published with its cleanup pending. -/
def Smooth : (e : Effect) × e.Answer → Prop
  | ⟨.call (.store _), .error _⟩ | ⟨.call (.archive _), .error _⟩ => False
  | ⟨.supervise _, .error _⟩ => False
  | ⟨.supervise (.store (.publishArchive ..)), .ok _⟩ => True
  | ⟨.supervise (.store (.state _)), .ok (.ok (.archived _ false))⟩ => True
  | ⟨.supervise (.store (.state _)), .ok _⟩ => False
  | ⟨.supervise (.store _), .ok (.error _)⟩ | ⟨.supervise (.archive _), .ok (.error _)⟩ => False
  | _ => True

/-- The items that were claimed, or tried to be. -/
def attempts (h : History) : List ArchiveWork :=
  h.filterMap fun
    | ⟨.call (.store (.claimArchive b _)), _⟩ => some (.cutover b)
    | ⟨.call (.store (.claimCleanup b _)), _⟩ => some (.cleanup b)
    | _ => none

/-- The sessions that claims issued. -/
def sessions (h : History) : List ArchiveSession :=
  h.filterMap fun
    | ⟨.call (.store (.claimArchive ..)), .ok s⟩ => s
    | ⟨.call (.store (.claimCleanup ..)), .ok s⟩ => s
    | _ => none

theorem attempts_append (h h' : History) : attempts (h ++ h') = attempts h ++ attempts h' :=
  List.filterMap_append

theorem sessions_append (h h' : History) : sessions (h ++ h') = sessions h ++ sessions h' :=
  List.filterMap_append

/-! ### One item -/

/-- If nothing failed the item ended as `good` says, and otherwise with an error. -/
def Settles (h : History) (r : Recovery) (good : ArchiveRecoveryOutcome) : Prop :=
  ((∀ x ∈ h, Smooth x) ∧ r = (.ok (), good)) ∨ (¬ (∀ x ∈ h, Smooth x) ∧ ∃ e, r.1 = .error e)

namespace Settles

variable {h h' : History} {r : Recovery} {good : ArchiveRecoveryOutcome}
  {x : (e : Effect) × e.Answer}

theorem nil : Settles [] (.ok (), good) good := .inl ⟨fun _ => (absurd · List.not_mem_nil), rfl⟩

theorem smooth (hx : Smooth x) (hs : Settles h r good) : Settles (x :: h) r good := by
  have hcons : (∀ y ∈ x :: h, Smooth y) ↔ ∀ y ∈ h, Smooth y :=
    List.forall_mem_cons.trans (and_iff_right hx)
  unfold Settles
  rw [hcons]
  exact hs

theorem failed (hx : ¬ Smooth x) (hr : ∃ e, r.1 = .error e) : Settles (x :: h) r good :=
  .inr ⟨fun hall => hx (hall x (List.mem_cons_self ..)), hr⟩

theorem append_smooth (hh' : ∀ x ∈ h', Smooth x) (hs : Settles h r good) :
    Settles (h ++ h') r good := by
  have happ : (∀ x ∈ h ++ h', Smooth x) ↔ ∀ x ∈ h, Smooth x :=
    List.forall_mem_append.trans (and_iff_left hh')
  unfold Settles
  rw [happ]
  exact hs

end Settles

/-- No claim is among the operations. -/
def ClaimsNothing (h : History) : Prop := attempts h = [] ∧ sessions h = []

section

variable (cfg : ArchiveRecoveryConfig) (bucket : BucketId) (session : ArchiveSession)
  (outcome : ArchiveRecoveryOutcome)

/-- An item that is deferred ends with an error. -/
theorem deferCutover_ends (error : DurableBucketStoreError) :
    (deferCutover cfg session outcome error).Ends fun h r =>
      ClaimsNothing h ∧ ∃ e, r.1 = .error e := by
  intro r
  rcases r with e | e | ⟨⟩ <;> exact ⟨⟨rfl, rfl⟩, _, rfl⟩

theorem finishCleanup_ends : (finishCleanup cfg session outcome).Ends fun h r =>
    ClaimsNothing h ∧ Settles h r { outcome with completed := outcome.completed + 1 } := by
  intro r
  rcases r with e | error | ⟨⟩
  · exact ⟨⟨rfl, rfl⟩, .failed id ⟨_, rfl⟩⟩
  · intro r
    rcases r with e | e | ⟨⟩ <;> exact ⟨⟨rfl, rfl⟩, .failed id ⟨_, rfl⟩⟩
  · exact ⟨⟨rfl, rfl⟩, .smooth trivial .nil⟩

theorem publishClaimedCutover_ends (objectKey : String) :
    (publishClaimedCutover cfg bucket session outcome objectKey).Ends fun h r =>
      ClaimsNothing h ∧ Settles h r { outcome with completed := outcome.completed + 1 } := by
  intro r
  rcases r with e | error | ⟨⟩
  · exact ⟨⟨rfl, rfl⟩, .failed id ⟨_, rfl⟩⟩
  · intro r
    rcases r with e | e | _ | _ | ⟨key, _ | _⟩
    · exact ⟨⟨rfl, rfl⟩, .smooth trivial (.failed id ⟨_, rfl⟩)⟩
    · exact ⟨⟨rfl, rfl⟩, .smooth trivial (.failed id ⟨_, rfl⟩)⟩
    · exact ⟨⟨rfl, rfl⟩, .smooth trivial (.failed id ⟨_, rfl⟩)⟩
    · exact (deferCutover_ends cfg session outcome error).imp fun h r hr =>
        ⟨hr.1, .smooth trivial (.failed id hr.2)⟩
    · exact (finishCleanup_ends cfg session outcome).imp fun h r hr =>
        ⟨hr.1, .smooth trivial (.smooth trivial hr.2)⟩
    · exact ⟨⟨rfl, rfl⟩, .smooth trivial (.failed id ⟨_, rfl⟩)⟩
  · exact (finishCleanup_ends cfg session outcome).imp fun h r hr => ⟨hr.1, .smooth trivial hr.2⟩

theorem recoverClaimedCutover_ends :
    (recoverClaimedCutover cfg bucket session outcome).Ends fun h r =>
      ClaimsNothing h ∧ Settles h r { outcome with completed := outcome.completed + 1 } := by
  intro r
  rcases r with e | error | records
  · exact ⟨⟨rfl, rfl⟩, .failed id ⟨_, rfl⟩⟩
  · exact (deferCutover_ends cfg session outcome error).imp fun h r hr =>
      ⟨hr.1, .failed id hr.2⟩
  intro r
  rcases r with e | error | key
  · exact ⟨⟨rfl, rfl⟩, .smooth trivial (.failed id ⟨_, rfl⟩)⟩
  · refine Prog.Ends.bind (p := deferCutover cfg session outcome .operationFailed)
      ((deferCutover_ends cfg session outcome .operationFailed).imp ?_)
    rintro h ⟨r, outcome'⟩ ⟨hh, e, rfl : r = _⟩
    refine ⟨?_, .smooth trivial (.failed id ⟨e, rfl⟩)⟩
    rw [List.append_nil]
    exact hh
  · exact (publishClaimedCutover_ends cfg bucket session outcome key).imp fun h r hr =>
      ⟨hr.1, .smooth trivial (.smooth trivial hr.2)⟩

/-- The outcome with as many more items claimed and completed as sessions were issued. -/
def ArchiveRecoveryOutcome.advance (outcome : ArchiveRecoveryOutcome) (h : History) :
    ArchiveRecoveryOutcome :=
  { outcome with
    claimed := outcome.claimed + (sessions h).length
    completed := outcome.completed + (sessions h).length }

theorem ArchiveRecoveryOutcome.advance_append (h h' : History) :
    outcome.advance (h ++ h') = (outcome.advance h).advance h' := by
  simp [advance, sessions_append, Nat.add_assoc]

/-- The item is claimed once, and ends as its history says. -/
def Tried (w : ArchiveWork) (outcome : ArchiveRecoveryOutcome) (h : History)
    (r : Recovery) : Prop :=
  attempts h = [w] ∧ Settles h r (outcome.advance h)

/-- Work on a claimed item under its renewer, until the renewer is shut down. -/
theorem ends_underRenewer {p : Worker Recovery} {x : (e : Effect) × e.Answer} {w : ArchiveWork}
    (hp : p.Ends fun h r => ClaimsNothing h ∧
      Settles h r { outcome with
        claimed := outcome.claimed + 1
        completed := outcome.completed + 1 })
    (hx : Smooth x) (ha : attempts [x] = [w]) (hs : sessions [x] = [session]) :
    (do
      Worker.startRenewer session cfg.leaseFor cfg.leaseRenewalInterval
      let result ← p
      Worker.shutdown
      return result : Worker Recovery).Ends fun h r => Tried w outcome (x :: h) r := by
  intro started
  refine Prog.Ends.bind (p := p) (hp.imp ?_)
  rintro h r ⟨⟨hattempts, hsessions⟩, hsettles⟩ stopped
  have heq : x :: ⟨.startRenewer session cfg.leaseFor cfg.leaseRenewalInterval, started⟩ ::
      (h ++ [⟨.shutdown, stopped⟩]) =
      [x] ++ ([⟨.startRenewer session cfg.leaseFor cfg.leaseRenewalInterval, started⟩] ++
        (h ++ [⟨.shutdown, stopped⟩])) := rfl
  have hone : attempts (x ::
      ⟨.startRenewer session cfg.leaseFor cfg.leaseRenewalInterval, started⟩ ::
      (h ++ [⟨.shutdown, stopped⟩])) = [w] := by
    rw [heq, attempts_append, attempts_append, attempts_append, ha, hattempts]
    rfl
  have hissued : sessions (x ::
      ⟨.startRenewer session cfg.leaseFor cfg.leaseRenewalInterval, started⟩
      :: (h ++ [⟨.shutdown, stopped⟩])) = [session] := by
    rw [heq, sessions_append, sessions_append, sessions_append, hs, hsessions]
    rfl
  refine ⟨hone, ?_⟩
  rw [ArchiveRecoveryOutcome.advance, hissued]
  refine .smooth hx (.smooth trivial (hsettles.append_smooth fun y hy => ?_))
  obtain rfl := List.mem_singleton.mp hy
  trivial

theorem recoverCutover_ends :
    (recoverCutover cfg bucket outcome).Ends (Tried (.cutover bucket) outcome) := by
  intro r
  rcases r with e | _ | session
  · exact ⟨rfl, .failed id ⟨_, rfl⟩⟩
  · exact ⟨rfl, .smooth trivial .nil⟩
  · exact ends_underRenewer cfg session outcome
      (recoverClaimedCutover_ends cfg bucket session _) trivial rfl rfl

theorem recoverCleanup_ends :
    (recoverCleanup cfg bucket outcome).Ends (Tried (.cleanup bucket) outcome) := by
  intro r
  rcases r with e | _ | session
  · exact ⟨rfl, .failed id ⟨_, rfl⟩⟩
  · exact ⟨rfl, .smooth trivial .nil⟩
  · exact ends_underRenewer cfg session outcome
      (finishCleanup_ends cfg session _) trivial rfl rfl

end

/-! ### The cycle -/

/-- If nothing failed every item was claimed and counted, and otherwise the cycle ended with an
error. -/
def Concludes (work : List ArchiveWork) (outcome : ArchiveRecoveryOutcome) (h : History)
    (r : Except ArchiveRecoveryError ArchiveRecoveryOutcome) : Prop :=
  ((∀ x ∈ h, Smooth x) ∧ attempts h = work ∧ r = .ok (outcome.advance h)) ∨
    (¬ (∀ x ∈ h, Smooth x) ∧ attempts h <+: work ∧ ∃ e, r = .error e)

/-- **An item that fails ends the cycle**, and one that does not lets the next be tried. -/
theorem runItems_ends (cfg : ArchiveRecoveryConfig) (work : List ArchiveWork) :
    ∀ outcome, (runItems cfg work outcome).Ends (Concludes work outcome) := by
  induction work with
  | nil => exact fun outcome => .inl ⟨fun _ => (absurd · List.not_mem_nil), rfl, rfl⟩
  | cons w work ih =>
      intro outcome
      have hrest : ∀ h (r : Recovery), Tried w outcome h r →
          (runRest cfg work r).Ends fun h' r' =>
            Concludes (w :: work) outcome (h ++ h') r' := by
        rintro h r ⟨hone, ⟨hsmooth, rfl⟩ | ⟨hfailed, e, he⟩⟩
        · refine (ih (outcome.advance h)).imp fun h' r' hr' => ?_
          rcases hr' with ⟨hsmooth', hall, rfl⟩ | ⟨hfailed', hpre, he'⟩
          · refine .inl ⟨List.forall_mem_append.mpr ⟨hsmooth, hsmooth'⟩, ?_, ?_⟩
            · rw [attempts_append, hone, hall]; rfl
            · rw [ArchiveRecoveryOutcome.advance_append]
          · refine .inr ⟨fun hall => hfailed' (List.forall_mem_append.mp hall).2, ?_, he'⟩
            rw [attempts_append, hone]
            exact (List.prefix_cons_inj w).mpr hpre
        · obtain ⟨res, outcome'⟩ := r
          obtain rfl : res = .error e := he
          refine .inr ⟨fun hall => hfailed (List.forall_mem_append.mp hall).1, ?_, e, rfl⟩
          rw [List.append_nil, hone]
          exact (List.prefix_cons_inj w).mpr List.nil_prefix
      cases w with
      | cutover b => exact .bind ((recoverCutover_ends cfg b outcome).imp hrest)
      | cleanup b => exact .bind ((recoverCleanup_ends cfg b outcome).imp hrest)

/-- The cycle tried every discovered item once, in the order discovered, and reports an outcome that
counts every claimed item as completed or deferred. -/
def Covers (work : List ArchiveWork) (h : History)
    (r : Except ArchiveRecoveryError ArchiveRecoveryOutcome) : Prop :=
  attempts h = work ∧ ∃ outcome, r = .ok outcome ∧ outcome.claimed = (sessions h).length ∧
    outcome.claimed = outcome.completed + outcome.deferred

theorem Concludes.covers_iff_of_ends {work : List ArchiveWork} {discovered : ℕ} {h : History}
    {r : Except ArchiveRecoveryError ArchiveRecoveryOutcome}
    (hc : Concludes work ⟨discovered, 0, 0, 0⟩ h r) : Covers work h r ↔ ∀ x ∈ h, Smooth x := by
  rcases hc with ⟨hsmooth, hall, rfl⟩ | ⟨hfailed, -, e, rfl⟩
  · exact iff_of_true ⟨hall, _, rfl, Nat.zero_add _, rfl⟩ hsmooth
  · exact iff_of_false (fun ⟨_, _, h, _⟩ => nomatch h) hfailed

/-- **The cycle covers what it discovered iff no operation fails**, for every list of work items
and every pattern of answers. -/
theorem covers_iff {cfg : ArchiveRecoveryConfig} {work : List ArchiveWork} {h : History}
    {r : Except ArchiveRecoveryError ArchiveRecoveryOutcome} (ht : (runOnce cfg).Trace h r)
    (hd : h.head? = some ⟨.call (.store (.discoverArchiveWork
      ⟨cfg.eligibleBefore, cfg.scanLimit⟩)), .ok work⟩) :
    Covers work h r ↔ ∀ x ∈ h, Smooth x := by
  obtain ⟨found, h', rfl, ht⟩ := ht
  cases hd
  exact ((runItems_ends cfg work _).trace ht).covers_iff_of_ends.trans
    (List.forall_mem_cons.trans (and_iff_right trivial)).symm

namespace Sample

/-- Recovery of the buckets up to 2025. -/
def recovery : ArchiveRecoveryConfig where
  eligibleBefore := newYear 2025 year2025
  scanLimit := 10
  leaseFor := 60000000000
  leaseRenewalInterval := 20000000000
  retryBackoff := 1000000000

/-- The sample bucket of another partition. -/
def otherBucket : BucketId := { bucket with partitionKey := [8] }

/-- What is discovered: a bucket to clean up, one to archive, and one that another worker claims
first. -/
def works : List ArchiveWork :=
  [.cleanup otherBucket, .cutover bucket, .cutover { bucket with partitionKey := [9] }]

/-- The first bucket is cleaned up, the second is archived and cleaned up. -/
def completes : History :=
  [⟨.call (.store (.discoverArchiveWork ⟨recovery.eligibleBefore, 10⟩)), .ok works⟩,
    ⟨.call (.store (.claimCleanup otherBucket recovery.leaseFor)),
      .ok (some ⟨otherBucket, "owner", 2⟩)⟩,
    ⟨.startRenewer ⟨otherBucket, "owner", 2⟩ recovery.leaseFor recovery.leaseRenewalInterval, ()⟩,
    ⟨.supervise (.store (.deleteHotBucket ⟨otherBucket, "owner", 2⟩)), .ok (.ok ())⟩,
    ⟨.shutdown, ()⟩,
    ⟨.call (.store (.claimArchive bucket recovery.leaseFor)), .ok (some session)⟩,
    ⟨.startRenewer session recovery.leaseFor recovery.leaseRenewalInterval, ()⟩,
    ⟨.supervise (.store (.snapshot session)), .ok (.ok [record])⟩,
    ⟨.supervise (.archive (.putBucketGeneration bucket 1 [record])), .ok (.ok "key")⟩,
    ⟨.supervise (.store (.publishArchive session "key")), .ok (.ok ())⟩,
    ⟨.supervise (.store (.deleteHotBucket session)), .ok (.ok ())⟩,
    ⟨.shutdown, ()⟩,
    ⟨.call (.store (.claimArchive { bucket with partitionKey := [9] } recovery.leaseFor)),
      .ok none⟩]

/-- Two buckets are discovered, and the snapshot of the first fails. -/
def fails : History :=
  [⟨.call (.store (.discoverArchiveWork ⟨recovery.eligibleBefore, 10⟩)),
      .ok [.cutover bucket, .cutover otherBucket]⟩,
    ⟨.call (.store (.claimArchive bucket recovery.leaseFor)), .ok (some session)⟩,
    ⟨.startRenewer session recovery.leaseFor recovery.leaseRenewalInterval, ()⟩,
    ⟨.supervise (.store (.snapshot session)), .ok (.error .unavailable)⟩,
    ⟨.supervise (.store (.deferArchive session recovery.retryBackoff)), .ok (.ok ())⟩,
    ⟨.shutdown, ()⟩]

theorem trace_completes : (runOnce recovery).Trace completes (.ok ⟨3, 2, 2, 0⟩) :=
  ⟨_, _, rfl, _, _, rfl, _, _, rfl, _, _, rfl, _, _, rfl, _, _, rfl, _, _, rfl, _, _, rfl, _, _,
    rfl, _, _, rfl, _, _, rfl, _, _, rfl, _, _, rfl, rfl, rfl⟩

end Sample

/-- A cycle over three buckets that nothing disturbs. -/
theorem covers_of_completes : Covers Sample.works Sample.completes (.ok ⟨3, 2, 2, 0⟩) :=
  (covers_iff Sample.trace_completes rfl).mpr (by simp [Sample.completes, Smooth])

/-- **One failing bucket blocks the rest.**  Two cutovers are discovered, the first is claimed, and
its snapshot fails.  It is deferred, the cycle ends with the error and without an outcome, and the
second is never tried. -/
theorem failing_bucket_ends_cycle :
    (runOnce Sample.recovery).Trace Sample.fails (.error (.durableStore .unavailable)) ∧
      Sample.fails.head? = some ⟨.call (.store (.discoverArchiveWork
        ⟨Sample.recovery.eligibleBefore, Sample.recovery.scanLimit⟩)),
        .ok [.cutover Sample.bucket, .cutover Sample.otherBucket]⟩ ∧
      attempts Sample.fails = [.cutover Sample.bucket] :=
  ⟨⟨_, _, rfl, _, _, rfl, _, _, rfl, _, _, rfl, _, _, rfl, _, _, rfl, rfl, rfl⟩, rfl, rfl⟩

end Pulpitum
