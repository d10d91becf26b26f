import Mathlib
import Pulpitum.Adapters.CockroachInvariants
import Pulpitum.Adapters.CockroachRecords
import Pulpitum.Application.Attempts
import Pulpitum.Application.Reader

/-!
# Adapters — Tier paging

Paging through a table over a store that keeps its tables and an archive store that keeps its
objects.  A bucket is its primary key in the tables, so the cutover of records is renamed to one of
buckets, over which `Scan` has shown what a client is given.  The keys appended need not be fresh:
the primary key of the records table keeps two records of one key apart.

* `client_step`: a step of a client is one over the cutover itself.
* `ok_of_run`: along every run of appends and archival, a client is in order.
* `tiers_deliver_iff`: **a scan delivers every record once, in order**, exactly if its range ends
  at or before the horizon of the table's strategy.
-/

namespace Pulpitum
namespace Cockroach

open Cutover (World map_phase map_visible map_applied map_applied_of_notMem)

variable {objectKey : BucketId → Option ℕ → List Record → String} {db db' : Db} {o o' : Objects}
  {w₀ w₀' : World BucketRef Stored String} {b : BucketId}

/-! ### Buckets by name -/

open Classical in
/-- The bucket with the primary key, the one a strategy derives if there is one. -/
noncomputable def nameOf (k : BucketRef) : BucketId :=
  if h : ∃ b : BucketId, b.Canonical ∧ refOf b = k then h.choose
  else { Pulpitum.Sample.bucket with tableId := k.1, partitionKey := k.2.1, key := k.2.2 }

theorem refOf_nameOf (k : BucketRef) : refOf (nameOf k) = k := by
  unfold nameOf
  split
  · rename_i h
    exact h.choose_spec.2
  · rfl

theorem nameOf_injective : Function.Injective nameOf := fun k k' h => by
  rw [← refOf_nameOf k, h, refOf_nameOf]

theorem nameOf_refOf (hb : b.Canonical) : nameOf (refOf b) = b := by
  have h : ∃ b' : BucketId, b'.Canonical ∧ refOf b' = refOf b := ⟨b, hb, rfl⟩
  unfold nameOf
  rw [dif_pos h]
  obtain ⟨hcanonical, href⟩ := h.choose_spec
  obtain ⟨ht, hpk⟩ := Prod.mk.inj href
  obtain ⟨hp, hk⟩ := Prod.mk.inj hpk
  exact hcanonical.eq_of_key hb ht hp hk

/-! ### The system -/

/-- Everything is appended to a bucket that a strategy derives. -/
theorem canonical_step {S : Services} {Good : BucketId → Prop} {s s' : System S.State}
    (h : ∀ a ∈ s.appenders, a.bucket.Canonical) (hs : System.Step S Good s s') :
    ∀ a ∈ s'.appenders, a.bucket.Canonical := by
  cases hs with
  | openAppend hroute =>
      exact List.forall_mem_cons.mpr ⟨hroute.canonical, h⟩
  | send | serveAppend | deliver | lose =>
      have hold := h _ (List.mem_append_right _ (List.mem_cons_self ..))
      exact forall_mem_replace h hold
  | spawn | worker | orphan => exact h

/-- What took effect is in whole microseconds. -/
def WholeTimes {σ : Type} (s : System σ) : Prop :=
  ∀ a ∈ s.appenders, a.TookEffect → a.record.eventTime.Whole

/-- What is whole after a step was whole before it. -/
theorem WholeTimes.of_step {S : Services} {Good : BucketId → Prop} {s s' : System S.State}
    (h : WholeTimes s') (hs : System.Step S Good s s') : WholeTimes s := by
  cases hs with
  | openAppend => exact (List.forall_mem_cons.mp h).2
  | send | serveAppend => exact forall_mem_replace h fun he => nomatch he
  | deliver | lose =>
      have hnew := h _ (List.mem_append_right _ (List.mem_cons_self ..))
      exact forall_mem_replace h hnew
  | spawn | worker | orphan => exact h

variable {Good : BucketId → Prop} {T : StoreTier Good} {A : ArchiveTier Good objectKey}
  {w : World BucketRef Record String}
  {s s' : System (tiersOf T A).State}
  (hkey : ∀ {b b' g g' rs rs'}, objectKey b (some g) rs = objectKey b' (some g') rs' →
    refOf b = refOf b' ∧ g = g')
  (hgood : Admissible Good)

/-- An operation other than an append is one of the guarded stores. -/
theorem serve_wholeTiers {q : Request} {t t' : (tiersOf T A).State} {r : q.Reply}
    (hs : (tiersOf T A).serve q t r t') (hq : ∀ b record, q ≠ .store (.append b record)) :
    (wholeTiers T A).serve q t r t' := by
  cases q with
  | store q =>
      refine ⟨⟨hs.1, ?_⟩, hs.2⟩
      cases q with
      | append b record => exact absurd rfl (hq b record)
      | _ => trivial
  | archive q => exact hs

theorem not_append_of_legit {q : Request} {F : Cutover.Facts BucketRef Record String}
    (h : (recordCoding Good).Legit F q) : ∀ b record, q ≠ .store (.append b record) := by
  rintro b record rfl
  exact h

/-- **A step of the system is one over the guarded stores**, if what it appends is whole. -/
theorem step_wholeTiers
    (h : Sound (recordRefinement hkey T A hgood) s w) (hw : WholeTimes s')
    (hs : System.Step (tiersOf T A) Good s s') :
    System.Step (wholeTiers T A) Good s s' := by
  cases hs with
  | openAppend hroute => exact .openAppend hroute
  | send => exact .send
  | @serveAppend t t' l l' ws os b r v a hq =>
      refine .serveAppend ⟨⟨hq.1, ?_⟩, hq.2⟩
      cases a with
      | error => trivial
      | ok u => exact hw _ (List.mem_append_right _ (List.mem_cons_self ..)) rfl
  | deliver => exact .deliver
  | lose hc => exact .lose hc
  | spawn hj => exact .spawn hj
  | @worker t t' as ws ws' os os' task task' l hstep htakes =>
      have hkeeps := h.workers task (List.mem_append_right _ (List.mem_cons_self ..))
      have hlegit := (hkeeps.step hstep).1
      refine .worker hstep ?_
      cases htakes with
      | serve hq => exact .serve (serve_wholeTiers hq (not_append_of_legit hlegit))
      | abandon => exact .abandon
      | silent => exact .silent
      | start => exact .start
      | newRenewer => exact .newRenewer
      | failed => exact .failed
  | @orphan t t' as ws os os' q r hq =>
      have hlegit := h.orphans q (List.mem_append_right _ (List.mem_cons_self ..))
      exact .orphan (serve_wholeTiers hq (not_append_of_legit hlegit))

/-! ### What the client sees -/

/-- The cutover of records, with buckets for their primary keys. -/
noncomputable def named (w : World BucketRef Record String) : World BucketId Record String :=
  w.map nameOf id

theorem named_phase (hb : b.Canonical) :
    ((named (w₀.map id Stored.record)).cell b).phase = (w₀.cell (refOf b)).phase := by
  have h := map_phase (f := id) nameOf_injective (w₀.map id Stored.record) (refOf b)
  rw [nameOf_refOf hb] at h
  exact h.trans (map_phase Function.injective_id w₀ (refOf b))

theorem named_visible (hb : b.Canonical) :
    (named (w₀.map id Stored.record)).visible b = (w₀.visible (refOf b)).map Stored.record := by
  have h := map_visible (f := id) nameOf_injective (w₀.map id Stored.record) (refOf b)
  rw [nameOf_refOf hb, List.map_id] at h
  exact h.trans (map_visible Function.injective_id w₀ (refOf b))

theorem named_applied (hb : b.Canonical) :
    (named (w₀.map id Stored.record)).applied b = (w₀.applied (refOf b)).map Stored.record := by
  have h := map_applied (f := id) nameOf_injective (w₀.map id Stored.record) (refOf b)
  rw [nameOf_refOf hb, List.map_id] at h
  exact h.trans (map_applied Function.injective_id w₀ (refOf b))

section Client

variable {hkey hgood} {x : Record}

/-- What was appended to a bucket. -/
theorem mem_applied_iff (h : Sound (recordRefinement hkey T A hgood) s w)
    (hcan : ∀ a ∈ s.appenders, a.bucket.Canonical) :
    x ∈ (named w).applied b ↔ ∃ a ∈ s.appenders, a.TookEffect ∧ a.bucket = b ∧ a.record = x := by
  have hmem : ∀ k, x ∈ (named w).applied (nameOf k) ↔
      ∃ a ∈ s.appenders, a.TookEffect ∧ refOf a.bucket = k ∧ a.record = x := by
    intro k
    rw [named, map_applied nameOf_injective, List.map_id, (h.applied k).mem_iff]
    exact System.mem_stored
  constructor
  · intro hx
    by_cases hb : ∃ k, nameOf k = b
    · obtain ⟨k, rfl⟩ := hb
      obtain ⟨a, ha, heff, hk, hr⟩ := (hmem k).mp hx
      exact ⟨a, ha, heff, by rw [← hk, nameOf_refOf (hcan a ha)], hr⟩
    · rw [named, map_applied_of_notMem hb] at hx
      exact absurd hx List.not_mem_nil
  · rintro ⟨a, ha, heff, rfl, hr⟩
    rw [← nameOf_refOf (hcan a ha)]
    exact (hmem _).mpr ⟨a, ha, heff, rfl, hr⟩

/-- What was appended to a bucket belongs there. -/
theorem routed_of_sound (h : Sound (recordRefinement hkey T A hgood) s w)
    (hcan : ∀ a ∈ s.appenders, a.bucket.Canonical) (hx : x ∈ (named w).applied b) :
    x.partitionKey = b.partitionKey ∧ b.contains x.eventTime := by
  obtain ⟨a, ha, -, rfl, rfl⟩ := (mem_applied_iff h hcan).mp hx
  have hadmits := (h.appenders a ha).admits
  exact ⟨hadmits.partitionKey.symm, DurableTable.Routes.contains hadmits.opens⟩

theorem visible_of_sound (h : Sound (recordRefinement hkey T A hgood) s w)
    (hcan : ∀ a ∈ s.appenders, a.bucket.Canonical) :
    ∀ b, ∀ x ∈ (named w).visible b, x.partitionKey = b.partitionKey ∧ b.contains x.eventTime := by
  intro b x hx
  have hinv : Cutover.Inv (named w) := h.inv.map nameOf_injective
  exact routed_of_sound h hcan ((hinv.visible_perm b).mem_iff.mp hx)

theorem filed_of_sound (h : Sound (recordRefinement hkey T A hgood) s w)
    (hcan : ∀ a ∈ s.appenders, a.bucket.Canonical) : Scan.Filed s (named w).applied :=
  fun _ _ => mem_applied_iff h hcan

variable {table : DurableTable} {query : Query} {buckets : List BucketId}

theorem canonical_of_mem
    (hb : table.definition.bucketsForRange query.partitionKey query.range = some buckets) :
    ∀ b ∈ buckets, b.Canonical := fun _ hmem =>
  BucketId.canonical_of_forEventTime (TableDefinition.bucketForEventTime_of_mem hb hmem)

/-- **The primary key keeps the records of the routed buckets apart.** -/
theorem apart_of_sound (h : Sound (recordRefinement hkey T A hgood) s w)
    (hcan : ∀ a ∈ s.appenders, a.bucket.Canonical) (hlen : s.appenders.length < 2 ^ 63)
    (hb : table.definition.bucketsForRange query.partitionKey query.range = some buckets) :
    Scan.Apart buckets (named w) := by
  have hdistinct : Paging.Distinct Record.clusteringKey (buckets.flatMap (named w).applied) := by
    refine List.pairwise_flatMap.mpr ⟨fun b hmem => ?_, ?_⟩
    · obtain ⟨-, -, o, -, w₀, hholds, rfl⟩ := h.tracks
      rw [named_applied (canonical_of_mem hb b hmem), List.pairwise_map]
      refine (List.Pairwise.and_mem.mp (hholds.keyed (refOf b))).imp ?_
      rintro x y ⟨hx, hy, hne⟩
      exact (hholds.decodes.applied _ x hx).clusteringKey_ne (hholds.decodes.applied _ y hy) hne
    · -- records of two buckets differ in their event times
      refine (TableDefinition.bucketsForRange_pairwise hb).imp fun {b₁ b₂} hle x hx y hy => ?_
      have h₁ := (routed_of_sound h hcan hx).2
      have h₂ := (routed_of_sound h hcan hy).2
      have hlt : x.eventTime < y.eventTime := (h₁.2.trans_le hle).trans_le h₂.1
      intro heq
      exact hlt.ne (congrArg (fun k => (ofLex k).1) heq)
  have hle := (filed_of_sound h hcan).length_le hdistinct.nodup fun r hr => List.mem_flatMap.mp hr
  refine ⟨hdistinct, hle.trans (hlen.le.trans ?_)⟩
  unfold usizeMax
  omega

/-- The rows of a bucket are at most as many as the appends. -/
theorem length_visible_le (h : Sound (recordRefinement hkey T A hgood) s (w₀.map id Stored.record))
    (hinv : Cutover.Inv w₀) (k : BucketRef) :
    (w₀.visible k).length ≤ s.appenders.length := by
  have happlied := (h.applied k).length_eq
  rw [← id_eq k, map_applied Function.injective_id, List.length_map] at happlied
  rw [(hinv.visible_perm k).length_eq]
  exact happlied.trans_le (List.length_filterMap_le ..)

variable {Err : Prop} {base : BucketId → List Record} {scan scan' : Scan}
  {t t' : (tiersOf T A).State}

/-- Where the client goes on is a whole time. -/
def WholeCursor (scan : Scan) : Prop := ∀ c ∈ scan.after, c.eventTime.Whole

theorem wholeCursor_start : WholeCursor .start := fun _ hc => nomatch hc

/-- **A step of the client is one over the cutover**, and leaves it as it is. -/
theorem client_step (h : Sound (recordRefinement hkey T A hgood) s w)
    (hcan : ∀ a ∈ s.appenders, a.bucket.Canonical) (hlen : s.appenders.length < 2 ^ 63)
    (hstart : query.range.start.Whole) (hend : query.range.endAt.Whole)
    (hb : table.definition.bucketsForRange query.partitionKey query.range = some buckets)
    (hok : Scan.Ok Err query buckets base (named w) scan) (hcursor : WholeCursor scan)
    (hs : Scan.Step (tiersOf T A) table query t scan t' scan') (ht : s.services = t) :
    (recordRefinement hkey T A hgood).Tracks t' w ∧
      Scan.Step Reader.services table query (named w) scan (named w) scan' := by
  have htracks : (recordRefinement hkey T A hgood).Tracks t w := ht ▸ h.tracks
  cases hs with
  | call => exact ⟨htracks, .call⟩
  | @serve _ pages after waiting l l' result b q k r hq =>
      obtain ⟨-, joined, hpage⟩ := hok.stage
      have hread : Scan.ReadOk Err query base (named w) after ⟨b, .ask (.call q) k⟩ :=
        hpage.reading _ (List.mem_append_right _ (List.mem_cons_self ..))
      have hmem : b ∈ buckets := hpage.all.mem_iff.mp (by simp)
      have hcanonical := canonical_of_mem hb b hmem
      obtain ⟨hi, hrows, o, hk, w₀, hholds, rfl⟩ := htracks
      have hin : ∀ x ∈ w₀.visible (refOf b), b.contains x.record.eventTime := by
        intro x hx
        refine (visible_of_sound h hcan b x.record ?_).2
        rw [named_visible hcanonical]
        exact List.mem_map_of_mem hx
      have hfits : (w₀.visible (refOf b)).length < 2 ^ 63 :=
        (length_visible_le h hholds.inv (refOf b)).trans_lt hlen
      suffices hserve : (recordRefinement hkey T A hgood).Tracks t' (w₀.map id Stored.record) ∧
          Reader.Serves q (named (w₀.map id Stored.record)) r
            (named (w₀.map id Stored.record)) from ⟨hserve.1, .serve hserve.2⟩
      obtain ⟨t, x⟩ := t
      obtain ⟨t', x'⟩ := t'
      generalize hgen : (⟨b, .ask (.call q) k⟩ : BucketRead) = read at hread
      cases hread with
      | asked =>
          rw [Scan.spawn, readBucket_eq] at hgen
          cases hgen
          obtain ⟨hserve, rfl⟩ :
            T.serve (.readRange b query.range after query.pageCapacity) t r t' ∧ x' = x := hq
          obtain ⟨htables, hi'⟩ := T.tables hi hserve
          obtain ⟨hdb, hr⟩ := hholds.readRange hcanonical hstart hend hcursor hin hfits
            htables
          refine ⟨⟨hi', hdb ▸ hrows, o, hk, w₀, hdb ▸ hholds, rfl⟩, ?_⟩
          rcases hr with ⟨key, d, hp, rfl⟩ | rfl
          · exact .archived ((named_phase hcanonical).trans hp)
          · rw [← named_visible hcanonical]
            exact .hot
      | @located _ key d hp =>
          cases hgen
          obtain ⟨hserve, rfl⟩ : A.serve (.getBucket b key) x r x' ∧ t' = t := hq
          obtain ⟨hkey', hobject⟩ := hholds.object_eq ((named_phase hcanonical).symm.trans hp)
          obtain ⟨hk', hanswer⟩ := A.get hk hserve
          obtain rfl := hanswer hcanonical hkey' _ hobject
          refine ⟨⟨hi, hrows, o, hk', w₀, hholds, rfl⟩, ?_⟩
          rw [← named_visible hcanonical]
          exact .object hp
      | done => cases hgen
      | failed => cases hgen
  | join => exact ⟨htracks, .join⟩
  | fail => exact ⟨htracks, .fail⟩
  | finish => exact ⟨htracks, .finish⟩

/-- The cursor of a page is that of a record on it. -/
theorem mem_of_cutPage {n : ℕ} {result : List Record} {c : Cursor}
    (h : (cutPage n result).next = some c) : ∃ r ∈ (cutPage n result).records, c = r.cursor := by
  simp only [cutPage, Option.ite_none_right_eq_some, Option.map_eq_some_iff] at h
  obtain ⟨-, r, hr, rfl⟩ := h
  exact ⟨r, List.mem_of_getLast? hr, rfl⟩

theorem wholeCursor_step (h : Sound (recordRefinement hkey T A hgood) s w)
    (hcan : ∀ a ∈ s.appenders, a.bucket.Canonical) (hwhole : WholeTimes s)
    (hr : query.range.start < query.range.endAt) (hl : 0 < query.limit)
    (hb : table.definition.bucketsForRange query.partitionKey query.range = some buckets)
    (hcursor : WholeCursor scan) (hok : Scan.Ok Err query buckets base (named w) scan')
    (hs : Scan.Step (tiersOf T A) table query t scan t' scan') : WholeCursor scan' := by
  cases hs with
  | call =>
      unfold Scan.call
      rw [Scan.openPage_eq hr hl, hb]
      exact hcursor
  | serve | join | fail => exact hcursor
  | @finish pages after result =>
      intro c hc
      obtain ⟨r, hmem, rfl⟩ := mem_of_cutPage hc
      have hout : r ∈ (pages ++ [(cutPage query.limit result).records]).flatten := by
        rw [List.flatten_append, List.flatten_singleton]
        exact List.mem_append_right _ hmem
      obtain ⟨-, b, -, happlied⟩ := hok.returned r hout
      obtain ⟨a, ha, heff, -, rfl⟩ := (mem_applied_iff h hcan).mp happlied
      exact hwhole a ha heff

/-- **A client that is not done can take a step.** -/
theorem progress (table : DurableTable) (t : (tiersOf T A).State)
    (hok : Scan.Ok Err query buckets base (named w) scan) (hdone : scan.stage ≠ .finished)
    (hserved : ∀ e, scan.stage ≠ .failed e) :
    ∃ t' scan', Scan.Step (tiersOf T A) table query t scan t' scan' := by
  have hstage := hok.stage
  obtain ⟨pages, after, stage⟩ := scan
  cases stage with
  | between => exact ⟨t, _, .call⟩
  | reading waiting reads result =>
      obtain ⟨-, joined, hpage⟩ := hstage
      cases reads with
      | nil =>
          obtain rfl := hpage.spawned rfl
          exact ⟨t, _, .finish⟩
      | cons read reads =>
          have hread : Scan.ReadOk Err query base (named w) after read :=
            hpage.reading read (List.mem_cons_self ..)
          cases hread with
          | @asked b =>
              obtain ⟨r, t', hserve⟩ := T.reads b query.range after query.pageCapacity t.1
              exact ⟨(t', t.2), _, .serve (l := []) ⟨hserve, rfl⟩⟩
          | @located b key d =>
              obtain ⟨r, x', hserve⟩ := A.reads b key t.2
              exact ⟨(t.1, x'), _, .serve (l := []) ⟨hserve, rfl⟩⟩
          | done => exact ⟨t, _, .join (l := [])⟩
          | failed => exact ⟨t, _, .fail (l := [])⟩
  | finished => exact absurd rfl hdone
  | failed e => exact absurd rfl (hserved e)
  | panicked => exact hstage.elim

theorem length_step {S : Services} {Good : BucketId → Prop} {s s' : System S.State}
    (hs : System.Step S Good s s') : s.appenders.length ≤ s'.appenders.length := by
  cases hs with
  | openAppend => exact Nat.le_succ _
  | send | serveAppend | deliver | lose => simp
  | spawn | worker | orphan => exact le_rfl

/-- What holds of the client and of the tiers at the end of a run `l`. -/
structure ScanOk (R : Refinement (wholeTiers T A) (recordCoding Good)) (query : Query)
    (buckets : List BucketId) (base : BucketId → List Record) (l : List Scan.Turn)
    (s : System (tiersOf T A).State) (scan : Scan) (w : World BucketRef Record String) : Prop where
  sound : Sound R s w
  canonical : ∀ a ∈ s.appenders, a.bucket.Canonical
  ok : Scan.Ok (.refused ∈ l) query buckets base (named w) scan
  cursor : WholeCursor scan
  within : Scan.WithinPages buckets.length l scan

/-- **Along a run** of appends and archival, a client that began in a sound state is in order,
whichever of its reads fail. -/
theorem ok_of_run {w₁ : World BucketRef Record String} {s₀ : System (tiersOf T A).State}
    {l : List Scan.Turn} (h₀ : Sound (recordRefinement hkey T A hgood) s₀ w₁)
    (hcan₀ : ∀ a ∈ s₀.appenders, a.bucket.Canonical)
    (hr : query.range.start < query.range.endAt) (hl : 0 < query.limit)
    (hlimit : query.limit ≤ usizeMax) (hstart : query.range.start.Whole)
    (hend : query.range.endAt.Whole)
    (hb : table.definition.bucketsForRange query.partitionKey query.range = some buckets)
    (hrun : Run (Scan.Attempt (tiersOf T A) Good table query) (s₀, .start) l (s, scan)) :
    WholeTimes s → s.appenders.length < 2 ^ 63 →
      ∃ w, ScanOk (recordRefinement hkey T A hgood) query buckets
        (named w₁).applied l s scan w := by
  refine Run.rec_last (P := fun l x => WholeTimes x.1 → x.1.appenders.length < 2 ^ 63 →
    ∃ w, ScanOk (recordRefinement hkey T A hgood) query buckets (named w₁).applied l x.1 x.2 w)
    (fun _ _ => ⟨w₁, h₀, hcan₀, ⟨fun _ => (absurd · List.not_mem_nil), fun _ _ => id, ?_⟩,
      wholeCursor_start, Scan.withinPages_start _⟩) ?_ hrun
  · exact ⟨Paging.Scanned.init, le_rfl⟩
  · rintro l ⟨s, scan⟩ turn ⟨s', scan'⟩ - ih hattempt hwhole hlen
    have hmono : ∀ {w}, Scan.Ok (.refused ∈ l) query buckets (named w₁).applied w scan →
        Scan.Ok (.refused ∈ l ++ [turn]) query buckets (named w₁).applied w scan :=
      fun hok => hok.mono (List.mem_append_left _)
    cases hattempt with
    | move hmove =>
        cases hmove with
        | others hstep =>
            obtain ⟨w, hsound, hcan, hok, hcursor, hwithin⟩ :=
              ih (hwhole.of_step hstep) ((length_step hstep).trans_lt hlen)
            obtain ⟨lab, w', hw, hsound'⟩ := hsound.step (admits_recordCoding hgood)
              (step_wholeTiers hkey hgood hsound hwhole hstep)
            exact ⟨w', hsound', canonical_step hcan hstep,
              (hmono hok).others (hw.map nameOf_injective), hcursor, hwithin.others⟩
        | @client t t' as ws os scan scan' hstep =>
            obtain ⟨w, hsound, hcan, hok, hcursor, hwithin⟩ := ih hwhole hlen
            obtain ⟨htracks, hstep'⟩ :=
              client_step hsound hcan hlen hstart hend hb hok hcursor hstep rfl
            obtain ⟨-, hok', hadvances⟩ := (hmono hok).client Reader.servesReads rfl
              (hsound.inv.map nameOf_injective) (visible_of_sound hsound hcan) hr hl hlimit hb
              (apart_of_sound hsound hcan hlen hb) hstep'
            exact ⟨w, hsound.serve .skip htracks rfl hsound.workers hsound.orphans, hcan, hok',
              wholeCursor_step hsound hcan hwhole hr hl hb hcursor hok' hstep,
              hwithin.advance hadvances (List.mem_cons_self ..)⟩
    | refuse hf =>
        obtain ⟨w, hsound, hcan, hok, hcursor, hwithin⟩ := ih hwhole hlen
        obtain ⟨hok', hadvances⟩ :=
          (hmono hok).refuse (List.mem_append_right _ (List.mem_singleton_self _)) hf
        exact ⟨w, hsound, hcan, hok', hcursor,
          hwithin.advance hadvances (List.mem_cons_of_mem _ (List.mem_singleton_self _))⟩
    | retry =>
        obtain ⟨w, hsound, hcan, hok, hcursor, hwithin⟩ := ih hwhole hlen
        exact ⟨w, hsound, hcan, (hmono hok).retry, hcursor, hwithin.retry⟩

theorem WholeTimes.of_run {s₀ : System (tiersOf T A).State} {l : List Scan.Turn}
    (hrun : Run (Scan.Attempt (tiersOf T A) Good table query) (s₀, .start) l (s, scan)) :
    WholeTimes s → WholeTimes s₀ := by
  refine Run.rec_last (P := fun _ x => WholeTimes x.1 → WholeTimes s₀) id ?_ hrun
  rintro l x turn x' - ih hattempt hwhole
  cases hattempt with
  | move hmove =>
      cases hmove with
      | others hstep => exact ih (hwhole.of_step hstep)
      | client => exact ih hwhole
  | refuse | retry => exact ih hwhole

/-- The tiers are empty. -/
structure EmptyTiers (s : (tiersOf T A).State) : Prop where
  inv : T.Inv s.1
  db : T.db s.1 = Db.empty
  keeps : A.Keeps s.2 fun _ => none

/-- **Every state that appends and archival can reach is sound**, as far as all that was appended
is in whole microseconds. -/
theorem sound_of_reaches (hkey : ∀ {b b' g g' rs rs'},
      objectKey b (some g) rs = objectKey b' (some g') rs' → refOf b = refOf b' ∧ g = g')
    (hgood : Admissible Good) {t : (tiersOf T A).State} (ht : EmptyTiers t)
    (hreach : System.Reaches (tiersOf T A) Good (.init t) s) :
    WholeTimes s → ∃ w, Sound (recordRefinement hkey T A hgood) s w ∧
      ∀ a ∈ s.appenders, a.bucket.Canonical := by
  induction hreach with
  | refl =>
      have hinit : Holds objectKey (T.db t.1, fun _ => none) World.init :=
        { tracks := ht.db ▸ ⟨rfl, fun _ => rfl, fun h => h.elim, fun _ => List.nodup_nil⟩
          inv := .init
          decodes := .init
          objects := fun h => nomatch h
          keyed := fun _ => .nil }
      have hrows : GoodRows Good (T.db t.1) := ht.db ▸ fun m hm => nomatch hm
      refine fun _ => ⟨World.init.map id Stored.record,
        Sound.init ⟨ht.inv, hrows, _, ht.keeps, _, hinit, rfl⟩ (hinit.inv.map Function.injective_id)
          fun k => ?_, fun a ha => nomatch ha⟩
      exact map_applied Function.injective_id World.init k
  | tail _ hstep ih =>
      intro hwhole
      obtain ⟨w, hsound, hcan⟩ := ih (hwhole.of_step hstep)
      obtain ⟨-, w', -, hsound'⟩ := hsound.step (admits_recordCoding hgood)
        (step_wholeTiers hkey hgood hsound hwhole hstep)
      exact ⟨w', hsound', canonical_step hcan hstep⟩

end Client

/-- **Paging is complete and duplicate-free over the tiers.**  From every state that appends and
archival can reach from empty tiers, over every run that goes on, a client is given what it should,
whichever of its reads fail, if and only if its range ends at or before the horizon of the table's
strategy. -/
theorem tiers_deliver_iff
    (hkey : ∀ {b b' g g' rs rs'}, objectKey b (some g) rs = objectKey b' (some g') rs' →
      refOf b = refOf b' ∧ g = g')
    (hgood : Admissible Good) {table : DurableTable} {query : Query} {t : (tiersOf T A).State}
    (ht : EmptyTiers t)
    {s₀ : System (tiersOf T A).State}
    (hreach : System.Reaches (tiersOf T A) Good (.init t) s₀)
    (hwhole : WholeTimes s₀) (hlen : s₀.appenders.length < 2 ^ 63)
    (hr : query.range.start < query.range.endAt) (hl : 0 < query.limit)
    (hlimit : query.limit ≤ usizeMax) (hstart : query.range.start.Whole)
    (hend : query.range.endAt.Whole) :
    (∀ {l : List Scan.Turn} {s : System (tiersOf T A).State} {scan : Scan},
      Run (Scan.Attempt (tiersOf T A) Good table query) (s₀, .start) l (s, scan) →
        WholeTimes s → s.appenders.length < 2 ^ 63 →
        scan.Withstands Good table query s₀ l s) ↔
      query.range.endAt ≤ table.definition.horizon := by
  have hrouted : (table.definition.bucketsForRange query.partitionKey query.range).isSome ↔
      query.range.endAt ≤ table.definition.horizon :=
    TableDefinition.bucketsForRange_isSome_iff hr
  rw [← hrouted]
  constructor
  · intro h
    by_contra hnone
    rw [Bool.not_eq_true, Option.isSome_eq_false_iff, Option.isNone_iff_eq_none] at hnone
    -- the first step of the client is a panic
    have hmove : Scan.Move (tiersOf T A) Good table query (s₀, .start) .client
        (s₀, Scan.call table query .start) := .client .call
    exact (h (.one (.move hmove)) hwhole hlen).served.1 (Scan.call_panics hr hl hnone)
  · intro hb l s scan hrun hwhole hlen
    obtain ⟨buckets, hb⟩ := Option.isSome_iff_exists.mp hb
    obtain ⟨w₀, h₀, hcan₀⟩ := sound_of_reaches hkey hgood ht hreach (WholeTimes.of_run hrun hwhole)
    obtain ⟨w, hsound, hcan, hok, -, hwithin⟩ :=
      ok_of_run h₀ hcan₀ hr hl hlimit hstart hend hb hrun hwhole hlen
    exact hok.withstands (filed_of_sound h₀ hcan₀) (filed_of_sound hsound hcan) hb
      (progress table s.services hok) hwithin

/-- The records of the partition in 2024 and 2025, one a page. -/
def Sample.query : Query where
  partitionKey := [7]
  range := ⟨Pulpitum.Sample.newYear 2024 Pulpitum.Sample.year2024,
    Pulpitum.Sample.newYear 2026 Pulpitum.Sample.year2026⟩
  after := none
  limit := 1

end Cockroach
end Pulpitum
