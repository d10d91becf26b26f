import Mathlib
import Pulpitum.Adapters.InMemoryCycle

/-!
# Adapters — In-memory recovery

What a recovery cycle does to reads, and from which states.

* `Handled.reads`: finishing a bucket changes no read of any bucket, in a state that is `Honest`.
* `honest_of_reached`, `reached_of_reaches`: the states that appends, archival workers and
  abandoned workers reach are.
* `recovery_converges`: **a cycle finishes all that is due, and readers do not notice.**
-/

namespace Pulpitum
namespace InMemory

open InMemoryArchive (generationKey)

variable {s s' : Store} {o : Objects} {b : BucketId} {env : Env} {e : Entry}

/-! ### What readers see -/

/-- What `read_bucket` returns over the stores as they are. -/
def reads (p : Store × Objects) (bucket : BucketId) (range : TimeRange) (after : Option Cursor)
    (limit : ℕ) : Except DurableTableError (List Record) :=
  (readBucket bucket range after limit).eval
    (Pulpitum.Effect.answer (fun q => (exec ⟨0, 0, ""⟩ q p.1).1)
      fun q => (InMemoryArchive.exec q p.2).1)

/-- The matching records of a hot bucket, and of an archive object. -/
theorem reads_eq (s : Store) (o : Objects) (b : BucketId) (range : TimeRange)
    (after : Option Cursor) (limit : ℕ) :
    reads (s, o) b range after limit = match (orDefault s b).state with
      | .archived key _ =>
          match InMemoryArchive.getBucket b key o with
          | .error e => .error (.store e)
          | .ok records => .ok (selectArchived range after limit records)
      | .hot | .archiving =>
          .ok ((((orDefault s b).records.filter fun r => range.contains r.eventTime).filter fun r =>
            isAfter after r).take limit) := by
  have hread : (exec ⟨0, 0, ""⟩ (.readRange b range after limit) s).1 =
      (readRange b range after limit s).1 := rfl
  unfold reads
  rw [readBucket_eq]
  simp only [Prog.eval, Pulpitum.Effect.answer, hread]
  unfold readRange orDefault
  cases s.lookup b with
  | none => simp [Entry.default, Prog.eval]
  | some e =>
      obtain ⟨state, g, token, x, y, records⟩ := e
      cases state with
      | hot | archiving => rfl
      | archived key deleted =>
          change (readArchived b range after limit key).eval _ = _
          rw [readArchived_eq]
          simp only [Prog.eval, Pulpitum.Effect.answer, InMemoryArchive.exec, Option.getD_some]
          cases InMemoryArchive.getBucket b key o <;> rfl

/-- The entries are as appends, workers and abandoned workers leave them: buckets are canonical,
records lie in their bucket in key order, and a published key is one of the bucket's own. -/
structure Honest (s : Store) : Prop where
  canonical : ∀ b, b ∈ s → b.Canonical
  belongs : ∀ b, ∀ r ∈ (orDefault s b).records,
    r.partitionKey = b.partitionKey ∧ b.contains r.eventTime
  sorted : ∀ b, (orDefault s b).records.Pairwise fun r r' => r.clusteringKey ≤ r'.clusteringKey
  key : ∀ b key deleted, (orDefault s b).state = .archived key deleted →
    ∃ g, key = generationKey b g

/-- The records of a hot bucket, in order, are read back alike from an archive object. -/
theorem selectArchived_of_sorted {rs : List Record} (range : TimeRange) (after : Option Cursor)
    (limit : ℕ) (h : rs.Pairwise fun r r' => r.clusteringKey ≤ r'.clusteringKey) :
    selectArchived range after limit rs =
      ((rs.filter fun r => range.contains r.eventTime).filter fun r => isAfter after r).take
        limit := by
  unfold selectArchived sortByKey
  rw [List.Pairwise.insertionSort_eq ((h.filter _).filter _)]

/-- **Handling a bucket changes no read**, of it or of any other. -/
theorem Handled.reads {p p' : Store × Objects} {w : ArchiveWork} (h : Handled p w p')
    (hp : Honest p.1) (b : BucketId) (range : TimeRange) (after : Option Cursor) (limit : ℕ) :
    reads p' b range after limit = reads p b range after limit := by
  cases h with
  | @cutover b₀ s s' o e e' hl hs hl' hs' _ others =>
      rw [reads_eq, reads_eq]
      by_cases hb : b = b₀
      · subst hb
        have hbel := hp.belongs b
        have hsort := hp.sorted b
        rw [orDefault_of_lookup hl] at hbel hsort ⊢
        rw [orDefault_of_lookup hl', hs']
        dsimp only
        rw [InMemoryArchive.getBucket_eq_ok (Function.update_self ..) hbel]
        dsimp only
        rw [selectArchived_of_sorted _ _ _ hsort]
        rcases hs with hs | hs <;> rw [hs]
      · have hsame : orDefault s' b = orDefault s b := by rw [orDefault, others b hb]; rfl
        rw [hsame]
        cases hst : (orDefault s b).state with
        | hot | archiving => rfl
        | archived key deleted =>
            dsimp only
            -- the key of the new object is no other bucket's
            obtain ⟨g, rfl⟩ := hp.key b key deleted hst
            have hne : generationKey b g ≠ generationKey b₀ (e.generation + 1) := by
              intro hk
              have hmem : b ∈ s := by
                by_contra hmem
                rw [orDefault, AList.lookup_eq_none.mpr hmem] at hst
                cases hst
              exact hb (InMemoryArchive.generationKey_inj (hp.canonical b hmem)
                (hp.canonical b₀ (mem_of_lookup hl)) hk).1
            unfold InMemoryArchive.getBucket
            rw [Function.update_of_ne hne]
  | @cleanup b₀ s s' o e e' key hl hs hl' hs' _ others =>
      rw [reads_eq, reads_eq]
      by_cases hb : b = b₀
      · subst hb
        rw [orDefault_of_lookup hl, orDefault_of_lookup hl', hs, hs']
      · have hsame : orDefault s' b = orDefault s b := by rw [orDefault, others b hb]; rfl
        rw [hsame]

/-- An entry is replaced by one of a finished bucket. -/
theorem Honest.finish (hp : Honest s) {g : ℕ} (hb : b ∈ s) (hl : s'.lookup b = some e)
    (hs : e.state = .archived (generationKey b g) true) (hrs : e.records = [])
    (others : ∀ b', b' ≠ b → s'.lookup b' = s.lookup b') : Honest s' := by
  have hsame : ∀ b', b' ≠ b → orDefault s' b' = orDefault s b' := fun b' hb' => by
    rw [orDefault, others b' hb']; rfl
  refine ⟨fun b' hb' => ?_, fun b' => ?_, fun b' => ?_, fun b' => ?_⟩
  all_goals by_cases heq : b' = b
  · exact heq ▸ hp.canonical b hb
  · have hsome := AList.lookup_isSome.mpr hb'
    rw [others b' heq] at hsome
    exact hp.canonical b' (AList.lookup_isSome.mp hsome)
  · subst heq
    rw [orDefault_of_lookup hl, hrs]
    exact fun r hr => absurd hr List.not_mem_nil
  · rw [hsame b' heq]; exact hp.belongs b'
  · subst heq
    rw [orDefault_of_lookup hl, hrs]
    exact .nil
  · rw [hsame b' heq]; exact hp.sorted b'
  · subst heq
    rw [orDefault_of_lookup hl, hs]
    rintro key deleted h
    cases h
    exact ⟨g, rfl⟩
  · rw [hsame b' heq]; exact hp.key b'

theorem Handled.honest {p p' : Store × Objects} {w : ArchiveWork} (h : Handled p w p')
    (hp : Honest p.1) : Honest p'.1 := by
  cases h with
  | cutover hl _ hl' hs' hrs others => exact hp.finish (mem_of_lookup hl) hl' hs' hrs others
  | @cleanup b s s' o e e' key hl hs hl' hs' hrs others =>
      obtain ⟨g, rfl⟩ := hp.key b key false (by rw [orDefault_of_lookup hl, hs])
      exact hp.finish (mem_of_lookup hl) hl' hs' hrs others

theorem reads_of_run {p p' : Store × Objects} {work : List ArchiveWork}
    (h : Run Handled p work p') (hp : Honest p.1) (b : BucketId) (range : TimeRange)
    (after : Option Cursor) (limit : ℕ) :
    reads p' b range after limit = reads p b range after limit := by
  induction h with
  | refl => rfl
  | more h _ ih => exact (ih (h.honest hp)).trans (h.reads hp b range after limit)

/-! ### The states that are reached -/

/-- An operation as the router and the archival workers make it: buckets are canonical, a record
lies in the bucket it is appended to, and the key that is published is one of the bucket's own. -/
def HonestRequest : Request → Prop
  | .store (.append b r) => b.Canonical ∧ r.partitionKey = b.partitionKey ∧ b.contains r.eventTime
  | .store (.claimArchive b _) | .store (.beginArchive b) => b.Canonical
  | .store (.publishArchive session key) => ∃ g, key = generationKey session.bucket g
  | _ => True

/-- The states that operations in `P`, in any order, reach from empty stores. -/
def Reached (P : Request → Prop) : Store × Objects → Prop :=
  Relation.ReflTransGen
    (fun p p' => ∃ (q : Request) (r : q.Reply), P q ∧ services.serve q p r p') (∅, fun _ => none)

theorem Honest.insert (hp : Honest s) (hcan : ∀ b', b' ∈ s.insert b e → b'.Canonical)
    (hbel : ∀ r ∈ e.records, r.partitionKey = b.partitionKey ∧ b.contains r.eventTime)
    (hsort : e.records.Pairwise fun r r' => r.clusteringKey ≤ r'.clusteringKey)
    (hkey : ∀ key deleted, e.state = .archived key deleted → ∃ g, key = generationKey b g) :
    Honest (s.insert b e) := by
  refine ⟨hcan, fun b' => ?_, fun b' => ?_, fun b' => ?_⟩ <;> rw [orDefault_insert] <;> split
  · rename_i h; exact h ▸ hbel
  · exact hp.belongs b'
  · exact hsort
  · exact hp.sorted b'
  · rename_i h; exact h ▸ hkey
  · exact hp.key b'

/-- **An operation that is made honestly keeps the entries honest.** -/
theorem Honest.effect {q : StoreRequest} {r : q.Reply} (hp : Honest s)
    (hq : HonestRequest (.store q)) (he : Effect env s q r s')
    (hcan : ∀ b, b ∈ s' → b.Canonical) : Honest s' := by
  -- the entry keeps its records, and is not published by this step
  have keep : ∀ {b : BucketId} {e : Entry}, s' = s.insert b e →
      e.records = (orDefault s b).records →
      (∀ key deleted, e.state = .archived key deleted → ∃ g, key = generationKey b g) →
      Honest s' := by
    rintro b e rfl hrs hkey
    exact hp.insert hcan (hrs ▸ hp.belongs b) (hrs ▸ hp.sorted b) hkey
  cases he with
  | look _ _ _ hsame =>
      refine ⟨hcan, fun b => ?_, fun b => ?_, fun b => ?_⟩ <;> rw [hsame b]
      · exact hp.belongs b
      · exact hp.sorted b
      · exact hp.key b
  | refused => exact hp
  | @append b r hs =>
      refine hp.insert hcan (fun r' hr' => ?_) (sortByKey_pairwise _) (hp.key b)
      rcases List.mem_append.mp ((sortByKey_perm _).mem_iff.mp hr') with hr' | hr'
      · exact hp.belongs b r' hr'
      · obtain rfl := List.mem_singleton.mp hr'
        exact hq.2
  | claimArchive | beginArchive | fence | deferArchive | abort =>
      exact keep rfl rfl fun _ _ h => nomatch h
  | @claimCleanup b => exact keep rfl rfl (hp.key b)
  | @renew session => exact keep rfl rfl (hp.key session.bucket)
  | @deferCleanup session => exact keep rfl rfl (hp.key session.bucket)
  | @snapshot session => exact keep rfl rfl (hp.key session.bucket)
  | publish =>
      refine keep rfl rfl fun key deleted h => ?_
      cases h
      exact hq
  | @deleteHot session key hs =>
      refine hp.insert hcan (fun r hr => absurd hr List.not_mem_nil) .nil fun key' deleted h => ?_
      cases h
      exact hp.key _ _ _ hs

theorem Honest.exec {q : StoreRequest} (hp : Honest s) (hq : HonestRequest (.store q)) (env : Env) :
    Honest (exec env q s).2 := by
  refine hp.effect hq (exec_effect env q s) fun b hb => ?_
  rcases mem_of_exec hb with hb | hb
  · exact hp.canonical b hb
  · cases q with
    | append => cases hb; exact hq.1
    | claimArchive | beginArchive => cases hb; exact hq
    | _ => cases hb

theorem honest_empty : Honest ∅ where
  canonical b hb := absurd hb (AList.notMem_empty b)
  belongs _ _ hr := absurd hr List.not_mem_nil
  sorted _ := .nil
  key _ _ _ h := nomatch h

theorem honest_of_reached {p : Store × Objects} (h : Reached HonestRequest p) : Honest p.1 := by
  induction h with
  | refl => exact honest_empty
  | @tail p p' _ hs ih =>
      obtain ⟨q, r, hq, hs⟩ := hs
      cases q with
      | store q =>
          obtain ⟨⟨env, hx⟩, -⟩ : (∃ env, InMemory.exec env q p.1 = (r, p'.1)) ∧ p'.2 = p.2 := hs
          have hp' := ih.exec hq env
          rwa [hx] at hp'
      | archive q =>
          obtain ⟨-, hst⟩ : InMemoryArchive.exec q p.2 = (r, p'.2) ∧ p'.1 = p.1 := hs
          rw [hst]
          exact ih

/-- What the appends and the workers ask is made honestly. -/
theorem honestRequest_of_asked {p : Store × Objects} {w : Cutover.World BucketId Record String}
    (ht : Tracks p w) {q : Request} (h : Coding.plain.Asked w.facts q) : HonestRequest q := by
  cases q with
  | store q =>
      cases q with
      | append => exact ⟨h.1, h.2.1.symm, h.2.2⟩
      | publishArchive session key =>
          obtain ⟨rs, hs⟩ := h
          exact ⟨session.generation, (ht.key hs).2.symm⟩
      | claimArchive | beginArchive => exact h
      | _ => trivial
  | archive q => trivial

/-- **Appenders and workers, abandoned ones among them, reach such states only.** -/
theorem reached_of_reaches {s : System services.State}
    (h : System.Reaches services BucketId.Canonical (.init (∅, fun _ => none)) s) :
    Reached HonestRequest s.services := by
  induction h with
  | refl => exact .refl
  | tail hr hs ih =>
      obtain ⟨w, hsound⟩ := sound_of_reaches hr
      rcases hsound.asked (fun _ _ hr => DurableTable.Routes.contains hr) hs
        with hsame | ⟨q, r, hq, hserve⟩
      · rw [hsame]; exact ih
      · exact ih.tail ⟨q, r, honestRequest_of_asked hsound.tracks hq, hserve⟩

/-! ### Convergence -/

/-- **Recovery converges.**  A cycle that no one disturbs and that ends within its leases returns,
with all it discovered claimed and completed, and leaves every eligible bucket and every published
one finished.  From a state that honest operations reached, no read of any bucket changes. -/
theorem recovery_converges {p : Store × Objects} {cfg : ArchiveRecoveryConfig}
    {now horizon : Instant} (h : Start cfg p.1 now horizon) :
    (runOnce cfg).Yields (Cycle.Serves horizon) ⟨p.1, p.2, now, none⟩ fun r c =>
      (∃ n, r = .ok ⟨n, n, n, 0⟩) ∧
      (∀ b e, p.1.lookup b = some e → (b.endAt ≤ cfg.eligibleBefore ∨
        ∃ key deleted, e.state = .archived key deleted) → Finished c.store b) ∧
      (Reached HonestRequest p → ∀ b range after limit,
        reads (c.store, c.objects) b range after limit = reads p b range after limit) := by
  refine (runOnce_yields h).imp ?_
  rintro r c ⟨work, hperm, rfl, hrun⟩
  obtain ⟨hkept, hdone⟩ := finished_of_run hrun
  refine ⟨⟨_, rfl⟩, fun b e hl hb => ?_, fun hreach => reads_of_run hrun (honest_of_reached hreach)⟩
  have hfound : (∃ key, e.state = .archived key true) ∨
      ∃ w ∈ offered ⟨cfg.eligibleBefore, cfg.scanLimit⟩ now p.1, w.bucket = b :=
    offered_or_finished (h.due b e hl) hl hb
  rcases hfound with ⟨key, hs⟩ | ⟨w, hw, rfl⟩
  · exact hkept b ⟨e, key, hl, hs⟩
  · exact hdone w (hperm.mem_iff.mpr hw)

namespace Sample

/-- A worker that began the cutover of a bucket with one record, at the reading 0, and is gone. -/
def abandoned : Store :=
  (∅ : Store).insert Pulpitum.Sample.bucket
    ⟨.archiving, 1, some "token", some beginLease, none, [Pulpitum.Sample.record]⟩

theorem reached_abandoned : Reached HonestRequest (abandoned, fun _ => none) := by
  have hroute := Pulpitum.Sample.routeAppend_record
  have happend : Reached HonestRequest
      ((exec ⟨0, 0, ""⟩ (.append Pulpitum.Sample.bucket Pulpitum.Sample.record) ∅).2,
        fun _ => none) :=
    .tail .refl ⟨.store (.append Pulpitum.Sample.bucket Pulpitum.Sample.record), .ok (),
      ⟨DurableTable.canonical_of_routeAppend hroute, rfl,
        DurableTable.contains_of_routeAppend hroute⟩, ⟨⟨0, 0, ""⟩, rfl⟩, rfl⟩
  exact happend.tail ⟨.store (.beginArchive Pulpitum.Sample.bucket),
    .ok ⟨Pulpitum.Sample.bucket, "token", 1⟩, DurableTable.canonical_of_routeAppend hroute,
    ⟨⟨0, 0, "token"⟩, rfl⟩, rfl⟩

/-- Recovery of the buckets up to 2025. -/
def recovery : ArchiveRecoveryConfig where
  eligibleBefore := Pulpitum.Sample.newYear 2025 Pulpitum.Sample.year2025
  scanLimit := 1
  leaseFor := 60000000000
  leaseRenewalInterval := 20000000000
  retryBackoff := 1000000000

theorem eq_of_lookup {e e' : Entry}
    (h : ((∅ : Store).insert Pulpitum.Sample.bucket e).lookup b = some e') : e' = e := by
  by_cases hb : b = Pulpitum.Sample.bucket
  · subst hb
    rw [AList.lookup_insert] at h
    exact (Option.some.inj h).symm
  · rw [AList.lookup_insert_ne hb, AList.lookup_empty] at h
    cases h

/-- A store with one entry, of the sample bucket. -/
theorem start_of_entry {e : Entry} {now : Instant} (hg : e.generation < 2 ^ 64 - 1)
    (hdue : e.Due now) (hm : now + recovery.leaseFor ≤ Instant.max) :
    Start recovery ((∅ : Store).insert Pulpitum.Sample.bucket e) now now where
  config := rfl
  limit_u32 := by decide
  generation b e' hl := by
    rw [eq_of_lookup hl]
    exact hg
  due b e' hl := by
    rw [eq_of_lookup hl]
    exact hdue
  limit := List.length_filterMap_le ..
  started := le_refl _
  deadline := hm

theorem start_abandoned : Start recovery abandoned beginLease beginLease :=
  start_of_entry (by decide) ⟨fun x hx => (Option.some.inj hx).symm.le, fun x hx => nomatch hx⟩
    (by decide)

/-- A record of another partition, appended to the bucket by a call of the store. -/
def misfiled : Store :=
  (exec ⟨0, 0, ""⟩
    (.append Pulpitum.Sample.bucket { Pulpitum.Sample.record with partitionKey := [8] }) ∅).2

theorem start_misfiled : Start recovery misfiled 0 0 :=
  start_of_entry (e := ⟨.hot, 0, none, none, none,
      [{ Pulpitum.Sample.record with partitionKey := [8] }]⟩) (by decide)
    ⟨fun _ => (nomatch ·), fun _ => (nomatch ·)⟩ (by decide)

end Sample

/-- The abandoned worker's bucket is finished, and read as before. -/
theorem recovery_converges_of_abandoned :
    Start Sample.recovery Sample.abandoned beginLease beginLease ∧
      Reached HonestRequest (Sample.abandoned, fun _ => none) ∧
      (runOnce Sample.recovery).Yields (Cycle.Serves beginLease)
        ⟨Sample.abandoned, fun _ => none, beginLease, none⟩ fun r c =>
          (∃ n, r = .ok ⟨n, n, n, 0⟩) ∧
          (∀ b e, Sample.abandoned.lookup b = some e → (b.endAt ≤ Sample.recovery.eligibleBefore ∨
            ∃ key deleted, e.state = .archived key deleted) → Finished c.store b) ∧
          (Reached HonestRequest (Sample.abandoned, fun _ => none) → ∀ b range after limit,
            reads (c.store, c.objects) b range after limit =
              reads (Sample.abandoned, fun _ => none) b range after limit) :=
  ⟨Sample.start_abandoned, Sample.reached_abandoned,
    recovery_converges (p := (Sample.abandoned, fun _ => none)) Sample.start_abandoned⟩

/-- **A record that does not lie in its bucket is lost from view.**  The store takes it, and reads
return it; the cycle archives the bucket, and then the archive store refuses to return the object
because a record in it is of another partition. -/
theorem misfiled_record_unreadable :
    Reached (fun _ => True) (Sample.misfiled, fun _ => none) ∧
      Start Sample.recovery Sample.misfiled 0 0 ∧
      reads (Sample.misfiled, fun _ => none) Pulpitum.Sample.bucket
        ⟨Pulpitum.Sample.bucket.start, Pulpitum.Sample.bucket.endAt⟩ none 1 =
          .ok [{ Pulpitum.Sample.record with partitionKey := [8] }] ∧
      (runOnce Sample.recovery).Yields (Cycle.Serves 0) ⟨Sample.misfiled, fun _ => none, 0, none⟩
        fun _ c => reads (c.store, c.objects) Pulpitum.Sample.bucket
          ⟨Pulpitum.Sample.bucket.start, Pulpitum.Sample.bucket.endAt⟩ none 1 =
            .error (.store (.other "archive records do not match the requested bucket")) := by
  refine ⟨.tail .refl ⟨.store (.append Pulpitum.Sample.bucket _), .ok (), trivial,
    ⟨⟨0, 0, ""⟩, rfl⟩, rfl⟩, Sample.start_misfiled, by rw [reads_eq]; rfl, ?_⟩
  refine (runOnce_yields Sample.start_misfiled).imp ?_
  rintro r c ⟨work, hperm, -, hrun⟩
  have hoffer : offered ⟨Sample.recovery.eligibleBefore, Sample.recovery.scanLimit⟩ 0
      Sample.misfiled = [.cutover Pulpitum.Sample.bucket] := by decide
  rw [hoffer] at hperm
  obtain rfl := List.perm_singleton.mp hperm
  generalize hp : (c.store, c.objects) = p at hrun ⊢
  cases hrun with
  | more h t =>
      cases t
      cases h with
      | @cutover _ _ _ _ e e' hl hs hl' hs' =>
          obtain rfl := Sample.eq_of_lookup hl
          rw [reads_eq, orDefault_of_lookup hl', hs']
          dsimp only
          unfold InMemoryArchive.getBucket
          rw [Function.update_self]
          rfl

end InMemory
end Pulpitum
