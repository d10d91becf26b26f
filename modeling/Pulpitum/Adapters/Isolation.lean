import Mathlib
import Pulpitum.Support.Lockstep
import Pulpitum.Ports.Locality
import Pulpitum.Application.Deeds
import Pulpitum.Adapters.InMemoryRecovery

/-!
# Adapters — Isolation

Tables and partitions over one `InMemoryDurableBucketStore` and one `InMemoryArchiveStore`, shared
with any number of appenders, archival workers and callers of `query_page`.  A run keeps a record
of what was done: the operations of the stores, with what they read from their surroundings, and
the deeds of the callers.

* `replay`: the record of a run determines the stores and the callers at its end.
* `unwinds`: what is done for other tables and partitions does not reach a partition of a table.
* `query_isolated`: two runs with **the same steps for a table and a partition**, whatever the
  others are, give its callers the same pages.
-/

namespace Pulpitum
namespace InMemory

open Cutover (World)
open InMemoryArchive (generationKey)

/-! ### Runs with a record -/

/-- One operation of the two stores. -/
def perform (env : Env) : (q : Request) → Store × Objects → q.Reply × (Store × Objects)
  | .store q, p => ((exec env q p.1).1, (exec env q p.1).2, p.2)
  | .archive q, p => ((InMemoryArchive.exec q p.2).1, p.1, (InMemoryArchive.exec q p.2).2)

/-- The answers of the stores to a reader, who reads no clock. -/
def answer (p : Store × Objects) (q : Request) : q.Reply := (perform ⟨0, 0, ""⟩ q p).1

/-- A caller of `query_page`: the table and the query. -/
structure Caller where
  table : DurableTable
  query : Query

/-- What was done. -/
inductive Event (ι : Type) where
  /-- An operation took effect. -/
  | operation (env : Env) (q : Request)
  /-- A caller did something. -/
  | deed (i : ι) (d : Scan.Deed)

variable {ι : Type} {callers : ι → Caller}

/-- The two stores, with a record of what was done. -/
def recorded (ι : Type) : Services where
  State := (Store × Objects) × List (Event ι)
  serve q x r x' := ∃ env, perform env q x.1 = (r, x'.1) ∧ x'.2 = x.2 ++ [.operation env q]

theorem recorded_serve (env : Env) (q : Request) (x : (Store × Objects) × List (Event ι)) :
    (recorded ι).serve q x (perform env q x.1).1
      ((perform env q x.1).2, x.2 ++ [.operation env q]) :=
  ⟨env, rfl, rfl⟩

section Runs

variable [DecidableEq ι]

/-- The stores and the callers after an event. -/
def Event.apply (callers : ι → Caller) (x : (Store × Objects) × (ι → Scan)) :
    Event ι → (Store × Objects) × (ι → Scan)
  | .operation env q => ((perform env q x.1).2, x.2)
  | .deed i d => (x.1, Function.update x.2 i
      (Scan.act (callers i).table (callers i).query (answer x.1) d (x.2 i)))

/-- The appenders and workers over the stores, and the callers. -/
abbrev Shared (ι : Type) := System (recorded ι).State × (ι → Scan)

namespace Shared

/-- Empty stores, and callers about to ask for a page. -/
def init (start : ι → Option Cursor) : Shared ι :=
  (System.init ((∅, fun _ => none), []), fun i => ⟨[], start i, .between⟩)

/-- What was done. -/
def history (x : Shared ι) : List (Event ι) := x.1.services.2

/-- The stores and the callers. -/
def view (x : Shared ι) : (Store × Objects) × (ι → Scan) := (x.1.services.1, x.2)

/-- One step of a run. -/
inductive Step (callers : ι → Caller) : Shared ι → Shared ι → Prop where
  | others {s s' scans} (h : System.Step (recorded ι) BucketId.Canonical s s') :
      Step callers (s, scans) (s', scans)
  | deed {p log as ws os scans} (i : ι) (d : Scan.Deed) :
      Step callers (⟨(p, log), as, ws, os⟩, scans)
        (⟨(p, log ++ [.deed i d]), as, ws, os⟩, (Event.apply callers (p, scans) (.deed i d)).2)

/-- The states that a run reaches. -/
abbrev Reaches (callers : ι → Caller) : Shared ι → Shared ι → Prop :=
  Relation.ReflTransGen (Step callers)

end Shared

/-! ### Replaying a record -/

/-- An operation as the appenders and the workers make it: also an upload is for a canonical bucket
and a generation. -/
def OrderlyRequest : Request → Prop
  | .archive (.putBucketGeneration b _ _) => b.Canonical
  | .archive (.putBucket ..) => False
  | q => HonestRequest q

/-- An event as it is found in the record of a run. -/
def Event.Orderly : Event ι → Prop
  | .operation _ q => OrderlyRequest q
  | .deed .. => True

theorem perform_serve {env : Env} {q : Request} {r : q.Reply} {p p' : Store × Objects}
    (h : perform env q p = (r, p')) : services.serve q p r p' := by
  cases q with
  | store q =>
      cases h
      exact ⟨⟨env, rfl⟩, rfl⟩
  | archive q =>
      cases h
      exact ⟨rfl, rfl⟩

/-- The stores refine the cutover next to their record. -/
def recording (ι : Type) : Refinement (recorded ι) Coding.plain :=
  refinement.comap Prod.fst fun ⟨_, h, _⟩ => perform_serve h

theorem orderlyRequest_of_asked {p : Store × Objects} {w : World BucketId Record String}
    (ht : Tracks p w) {q : Request} (h : Coding.plain.Asked w.facts q) : OrderlyRequest q := by
  cases q with
  | store q => exact honestRequest_of_asked ht h
  | archive q =>
      cases q with
      | putBucket => exact h
      | putBucketGeneration => exact h.1
      | getBucket => trivial

/-- What the record of a run says. -/
structure Replays (callers : ι → Caller) (x₀ x : Shared ι) : Prop where
  sound : ∃ w, Sound (recording ι) x.1 w
  orderly : ∀ e ∈ x.history, e.Orderly
  view : x.view = x.history.foldl (Event.apply callers) x₀.view

/-- One more event is recorded. -/
theorem Replays.event {x₀ x x' : Shared ι} {e : Event ι} (h : Replays callers x₀ x)
    (hs : ∃ w, Sound (recording ι) x'.1 w) (he : e.Orderly)
    (hhistory : x'.history = x.history ++ [e]) (hview : x'.view = e.apply callers x.view) :
    Replays callers x₀ x' where
  sound := hs
  orderly := by
    rw [hhistory, List.forall_mem_append, List.forall_mem_singleton]
    exact ⟨h.orderly, he⟩
  view := by rw [hhistory, List.foldl_concat, ← h.view, hview]

theorem Replays.step {x₀ x x' : Shared ι} (h : Replays callers x₀ x)
    (hs : Shared.Step callers x x') : Replays callers x₀ x' := by
  obtain ⟨w, hw⟩ := h.sound
  cases hs with
  | @others s s' scans hs =>
      obtain ⟨-, w', -, hw'⟩ := hw.step Coding.admits_plain hs
      rcases hw.asked (fun _ _ hr => DurableTable.Routes.contains hr) hs
        with hsame | ⟨q, r, hq, env, hserve, hlog⟩
      · have hhistory : Shared.history (s', scans) = Shared.history (s, scans) :=
          congrArg Prod.snd hsame
        have hview : Shared.view (s', scans) = Shared.view (s, scans) :=
          congrArg (fun y => (Prod.fst y, scans)) hsame
        exact ⟨⟨w', hw'⟩, hhistory ▸ h.orderly, by rw [hhistory, hview, h.view]⟩
      · refine h.event ⟨w', hw'⟩ (e := .operation env q) ?_ hlog ?_
        · exact orderlyRequest_of_asked hw.tracks hq
        · exact congrArg (fun y => (y, scans)) (congrArg Prod.snd hserve).symm
  | deed i d =>
      exact h.event ⟨w, hw.tracks, hw.inv, hw.applied, hw.appenders, hw.workers, hw.orphans⟩
        (e := .deed i d) trivial rfl rfl

/-- **The record of a run determines the stores and the callers.** -/
theorem replay {start : ι → Option Cursor} {x : Shared ι}
    (h : Shared.Reaches callers (.init start) x) : Replays callers (.init start) x := by
  induction h with
  | refl =>
      refine ⟨⟨_, Sound.init (R := recording ι) Tracks.init .init fun _ => rfl⟩, ?_, rfl⟩
      exact fun _ he => absurd he List.not_mem_nil
  | tail _ hs ih => exact ih.step hs

end Runs

/-! ### One partition of a table -/

section Partition

variable (T : TableId) (P : PartitionKey)

/-- The bucket is one of the partition `P` of the table `T`. -/
def Mine (b : BucketId) : Prop := b.tableId = T ∧ b.partitionKey = P

instance : DecidablePred (Mine T P) := fun b => by unfold Mine; infer_instance

/-- The caller asks for the partition `P` of the table `T`. -/
def Caller.On (c : Caller) : Prop := c.table.definition.tableId = T ∧ c.query.partitionKey = P

instance : DecidablePred (Caller.On T P) := fun c => by unfold Caller.On; infer_instance

/-- The event is a step for the partition `P` of the table `T`. -/
def Event.concerns (callers : ι → Caller) : Event ι → Bool
  | .operation _ q => q.bucket?.any (Mine T P)
  | .deed i _ => (callers i).On T P

/-- The key is one of the bucket's own, and the bucket is canonical. -/
def OwnKey (b : BucketId) (key : String) : Prop := b.Canonical ∧ ∃ g, key = generationKey b g

/-- Two states that no one can tell apart from the partition `P` of the table `T`.  In each of them
archived buckets are located by keys of their own, so that a read never asks for an object of
another partition. -/
structure Same (callers : ι → Caller) (x y : (Store × Objects) × (ι → Scan)) : Prop where
  entries : ∀ b, Mine T P b → x.1.1.lookup b = y.1.1.lookup b
  objects : ∀ b g, Mine T P b → b.Canonical →
    x.1.2 (generationKey b g) = y.1.2 (generationKey b g)
  left : Honest x.1.1
  right : Honest y.1.1
  scans : ∀ i, (callers i).On T P → x.2 i = y.2 i
  within : ∀ i, (callers i).On T P → (x.2 i).Within (Mine T P) OwnKey (callers i).query

end Partition

variable {T : TableId} {P : PartitionKey} {x y : (Store × Objects) × (ι → Scan)}

/-- The buckets of a caller's range are its own. -/
theorem Caller.On.mine {c : Caller} (h : c.On T P) {bs : List BucketId}
    (hbs : c.table.definition.bucketsForRange c.query.partitionKey c.query.range = some bs)
    {b : BucketId} (hb : b ∈ bs) : Mine T P b := by
  obtain ⟨-, ht, hp, -⟩ := BucketId.forEventTimeWithStrategy_eq_some
    (TableDefinition.bucketForEventTime_of_mem hbs hb)
  exact ⟨ht.trans h.1, hp.trans h.2⟩

/-- An archived bucket is located by a key of its own. -/
theorem Honest.locates {p : Store × Objects} (h : Honest p.1) :
    Scan.Locates (Mine T P) OwnKey (answer p) := by
  intro b range after limit key _ hread
  change (readRange b range after limit p.1).1 = _ at hread
  unfold readRange at hread
  cases hl : p.1.lookup b with
  | none => rw [hl] at hread; cases hread
  | some entry =>
      have hstate : ∃ d, entry.state = .archived key d := by
        rw [hl] at hread
        obtain ⟨state, generation, token, expires, next, records⟩ := entry
        cases state with
        | hot | archiving => cases hread
        | archived key' d => cases hread; exact ⟨d, rfl⟩
      obtain ⟨d, hstate⟩ := hstate
      rw [← orDefault_of_lookup hl] at hstate
      exact ⟨h.canonical b (mem_of_lookup hl), h.key b key d hstate⟩

namespace Same

theorem symm (h : Same T P callers x y) : Same T P callers y x where
  entries b hb := (h.entries b hb).symm
  objects b g hb hc := (h.objects b g hb hc).symm
  left := h.right
  right := h.left
  scans i hi := (h.scans i hi).symm
  within i hi := h.scans i hi ▸ h.within i hi

/-- What a read of the partition asks is answered alike. -/
theorem answers (h : Same T P callers x y) {q : Request}
    (hq : Scan.Asks (Mine T P) OwnKey q) : answer x.1 q = answer y.1 q := by
  cases q with
  | store q =>
      cases q with
      | readRange b range after limit => exact (exec_local _ rfl).reply (h.entries b hq)
      | _ => exact hq.elim
  | archive q =>
      cases q with
      | getBucket b key =>
          obtain ⟨hb, hc, g, rfl⟩ := hq
          change InMemoryArchive.getBucket b _ x.1.2 = InMemoryArchive.getBucket b _ y.1.2
          unfold InMemoryArchive.getBucket
          rw [h.objects b g hb hc]
      | putBucket | putBucketGeneration => exact hq.elim

/-- Empty stores, and callers about to ask for a page. -/
theorem init (start : ι → Option Cursor) :
    Same T P callers (Shared.init start).view (Shared.init start).view where
  entries _ _ := rfl
  objects _ _ _ _ := rfl
  left := honest_empty
  right := honest_empty
  scans _ _ := rfl
  within _ _ := fun _ _ _ h => nomatch h

end Same

/-! ### What an operation reaches -/

section Operations

variable {env : Env} {q : Request} {p p' : Store × Objects} {b : BucketId}

theorem honest_perform (hp : Honest p.1) (hq : OrderlyRequest q) :
    Honest (perform env q p).2.1 := by
  cases q with
  | store q => exact hp.exec hq env
  | archive q => exact hp

/-- An operation on both sides keeps the entries of a bucket equal. -/
theorem perform_entry (h : p.1.lookup b = p'.1.lookup b) :
    (perform env q p).2.1.lookup b = (perform env q p').2.1.lookup b := by
  cases q with
  | archive q => exact h
  | store q =>
      change (exec env q p.1).2.lookup b = (exec env q p'.1).2.lookup b
      by_cases hb : q.bucket? = some b
      · exact (exec_local env hb).entry h
      · rw [exec_lookup_others env hb, exec_lookup_others env hb]
        exact h

/-- An operation on another bucket leaves the entry alone. -/
theorem perform_entry_others (h : q.bucket? ≠ some b) :
    (perform env q p).2.1.lookup b = p.1.lookup b := by
  cases q with
  | archive q => rfl
  | store q => exact exec_lookup_others env h

/-- An operation on both sides keeps the objects under a key equal. -/
theorem perform_object {key : String} (h : p.2 key = p'.2 key) :
    (perform env q p).2.2 key = (perform env q p').2.2 key := by
  cases q with
  | store q => exact h
  | archive q =>
      cases q with
      | getBucket => exact h
      | putBucket | putBucketGeneration =>
          simp only [perform, InMemoryArchive.exec, Function.update_apply, h]

/-- An operation on another bucket leaves the objects of the bucket alone. -/
theorem perform_object_others {g : ℕ} (hq : OrderlyRequest q) (hb : b.Canonical)
    (h : q.bucket? ≠ some b) :
    (perform env q p).2.2 (generationKey b g) = p.2 (generationKey b g) := by
  cases q with
  | store q => rfl
  | archive q =>
      cases q with
      | getBucket => rfl
      | putBucket => exact hq.elim
      | putBucketGeneration b' g' rs =>
          -- the key of a canonical bucket is no other's, though table identifiers may have slashes
          have hobjects : (perform env (.archive (.putBucketGeneration b' g' rs)) p).2.2 =
              Function.update p.2 (generationKey b' g') (some rs) := rfl
          rw [hobjects]
          refine Function.update_of_ne (fun e => h ?_) _ _
          obtain ⟨rfl, -⟩ := InMemoryArchive.generationKey_inj hb hq e
          rfl

end Operations

/-! ### Isolation -/

variable [DecidableEq ι]

/-- A deed on both sides. -/
theorem Same.deed (h : Same T P callers x y) (i : ι) (d : Scan.Deed) :
    Same T P callers (Event.apply callers x (.deed i d)) (Event.apply callers y (.deed i d)) where
  entries := h.entries
  objects := h.objects
  left := h.left
  right := h.right
  scans j hj := by
    by_cases e : j = i
    · subst e
      simp only [Event.apply, Function.update_self]
      rw [← h.scans j hj]
      exact Scan.act_congr (h.within j hj) (fun _ => h.answers) d
    · simp only [Event.apply, Function.update_of_ne e]
      exact h.scans j hj
  within j hj := by
    by_cases e : j = i
    · subst e
      simp only [Event.apply, Function.update_self]
      exact (h.within j hj).act h.left.locates (fun _ hbs _ hb => hj.mine hbs hb) d
    · simp only [Event.apply, Function.update_of_ne e]
      exact h.within j hj

/-- **What is done for others does not reach the partition.** -/
theorem unwinds : Unwinds (Event.apply callers) (Event.concerns T P callers) Event.Orderly
    (Same T P callers) where
  symm := Same.symm
  both := by
    intro e x y he _ h
    cases e with
    | operation env q =>
        exact ⟨fun b hb => perform_entry (h.entries b hb),
          fun b g hb hc => perform_object (h.objects b g hb hc), honest_perform h.left he,
          honest_perform h.right he, h.scans, h.within⟩
    | deed i d => exact h.deed i d
  one := by
    intro e x y he hother h
    cases e with
    | operation env q =>
        have hb : ∀ b, Mine T P b → q.bucket? ≠ some b := by
          intro b hb hq
          simp [Event.concerns, hq, hb] at hother
        exact ⟨fun b hm => (perform_entry_others (hb b hm)).trans (h.entries b hm),
          fun b g hm hc => (perform_object_others he hc (hb b hm)).trans (h.objects b g hm hc),
          honest_perform h.left he, h.right, h.scans, h.within⟩
    | deed i d =>
        have hi : ¬ (callers i).On T P := of_decide_eq_false hother
        have hsame : ∀ j, (callers j).On T P → (Event.apply callers x (.deed i d)).2 j = x.2 j := by
          intro j hj
          refine Function.update_of_ne ?_ _ _
          rintro rfl
          exact hi hj
        exact ⟨h.entries, h.objects, h.left, h.right,
          fun j hj => (hsame j hj).trans (h.scans j hj), fun j hj => (hsame j hj) ▸ h.within j hj⟩

/-- The stores and callers of a run, as seen from any partition, are as they are. -/
theorem same_of_reaches {start : ι → Option Cursor} {x : Shared ι}
    (hx : Shared.Reaches callers (.init start) x) : Same T P callers x.view x.view := by
  have hreplay := replay hx
  rw [hreplay.view]
  exact unwinds.foldl hreplay.orderly hreplay.orderly rfl (.init start)

/-- A read leaves the stores alone, and reads no clock. -/
theorem answer_of_serve {q : Request} {r : q.Reply} {p p' : Store × Objects}
    (hq : Scan.Asks (Mine T P) OwnKey q) (h : services.serve q p r p') :
    p' = p ∧ answer p q = r := by
  cases q with
  | store q =>
      cases q with
      | readRange b range after limit =>
          obtain ⟨⟨env, hread⟩, ho⟩ :
            (∃ env, exec env (.readRange b range after limit) p.1 = (r, p'.1)) ∧ p'.2 = p.2 := h
          have hkeep : p'.1 = p.1 :=
            (congrArg Prod.snd hread).symm.trans (readRange_store b range after limit p.1)
          exact ⟨Prod.ext hkeep ho, congrArg Prod.fst hread⟩
      | _ => exact hq.elim
  | archive q =>
      cases q with
      | getBucket b key =>
          obtain ⟨hread, hs⟩ : InMemoryArchive.exec (.getBucket b key) p.2 = (r, p'.2) ∧
            p'.1 = p.1 := h
          exact ⟨Prod.ext hs (congrArg Prod.snd hread).symm, congrArg Prod.fst hread⟩
      | putBucket | putBucketGeneration => exact hq.elim

/-- **The deeds of a caller are all it can do**: every step of a client that pages through the
query is one, and leaves the stores alone. -/
theorem deed_of_step {start : ι → Option Cursor} {x : Shared ι}
    (hx : Shared.Reaches callers (.init start) x) {i : ι} {p' : Store × Objects} {scan' : Scan}
    (h : Scan.Step services (callers i).table (callers i).query x.view.1 (x.2 i) p' scan') :
    ∃ d, Event.apply callers x.view (.deed i d) = (p', Function.update x.2 i scan') := by
  have hsame : Same (callers i).table.definition.tableId (callers i).query.partitionKey callers
      x.view x.view := same_of_reaches hx
  obtain ⟨rfl, d, rfl⟩ := Scan.exists_deed (hsame.within i ⟨rfl, rfl⟩)
    (fun _ _ hq hs => answer_of_serve hq hs) h
  exact ⟨d, rfl⟩

/-- **A partition of a table is isolated.**  Two runs that did the same for it, in the same order,
and for other tables and partitions whatever they did, have given each of its callers the same. -/
theorem query_isolated {start : ι → Option Cursor} {x y : Shared ι}
    (hx : Shared.Reaches callers (.init start) x) (hy : Shared.Reaches callers (.init start) y)
    (h : x.history.filter (Event.concerns T P callers) =
      y.history.filter (Event.concerns T P callers)) {i : ι} (hi : (callers i).On T P) :
    x.2 i = y.2 i := by
  have hreplay := replay hx
  have hreplay' := replay hy
  have hsame : Same T P callers x.view y.view := by
    rw [hreplay.view, hreplay'.view]
    exact unwinds.foldl hreplay.orderly hreplay'.orderly h (.init start)
  exact hsame.scans i hi

namespace Sample

/-- A table whose identifier has a slash in it. -/
def slashed : DurableTable where
  definition := { Pulpitum.Sample.table.definition with tableId := ⟨"events/07", by decide⟩ }
  valid := rfl

/-- A record of the empty partition. -/
def unkeyed : Record := { Pulpitum.Sample.record with partitionKey := [] }

/-- The bucket of that record. -/
def unkeyedBucket : BucketId :=
  { Pulpitum.Sample.bucket with tableId := ⟨"events/07", by decide⟩, partitionKey := [] }

/-- A caller for the year 2024 of the partition. -/
def caller : Caller where
  table := Pulpitum.Sample.table
  query :=
    { partitionKey := [7]
      range :=
        ⟨Pulpitum.Sample.newYear 2024 Pulpitum.Sample.year2024,
          Pulpitum.Sample.newYear 2025 Pulpitum.Sample.year2025⟩
      after := none
      limit := 10 }

theorem routeAppend_unkeyed :
    slashed.routeAppend (Pulpitum.Sample.newYear 2024 (by decide)) unkeyed =
      some (.ok unkeyedBucket) := rfl

end Sample

/-- An append to another table before the page is asked for makes no difference. -/
theorem query_isolated_of_append :
    ∃ x y : Shared Unit, Shared.Reaches (fun _ => Sample.caller) (.init fun _ => none) x ∧
      Shared.Reaches (fun _ => Sample.caller) (.init fun _ => none) y ∧
      x.history.length = y.history.length + 1 ∧
      x.history.filter (Event.concerns ⟨"events", by decide⟩ [7] fun _ => Sample.caller) =
        y.history.filter (Event.concerns ⟨"events", by decide⟩ [7] fun _ => Sample.caller) ∧
      Sample.caller.On ⟨"events", by decide⟩ [7] ∧ x.2 () = y.2 () := by
  have own : Shared.Reaches (fun _ : Unit => Sample.caller) (.init fun _ => none) _ :=
    .tail (.tail (.tail .refl
      (.others (.openAppend ⟨_, _, Pulpitum.Sample.routeAppend_record⟩)))
      (.others (.send (l := []))))
      (.others (.serveAppend (l := []) (recorded_serve ⟨0, 0, ""⟩ _ _)))
  have other := Relation.ReflTransGen.tail (.tail (.tail own
    (.others (.openAppend ⟨_, _, Sample.routeAppend_unkeyed⟩))) (.others (.send (l := []))))
    (.others (.serveAppend (l := []) (recorded_serve ⟨0, 0, ""⟩ _ _)))
  have hx := Relation.ReflTransGen.tail (.tail (.tail (.tail other (.deed () .call))
    (.deed () (.serve 0))) (.deed () (.join 0))) (.deed () .finish)
  have hy := Relation.ReflTransGen.tail (.tail (.tail (.tail own (.deed () .call))
    (.deed () (.serve 0))) (.deed () (.join 0))) (.deed () .finish)
  exact ⟨_, _, hx, hy, rfl, rfl, ⟨rfl, rfl⟩, query_isolated hx hy rfl ⟨rfl, rfl⟩⟩

end InMemory
end Pulpitum
