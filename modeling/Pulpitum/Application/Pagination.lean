import Mathlib
import Pulpitum.Support.Paging
import Pulpitum.Application.NoLoss

/-!
# Application — Pagination

A client that calls `query_page` again and again, each time with the cursor of the page before,
until there is none, while appends and archival go on.  `query_page` reads its buckets in up to
four tasks at once; each read is one or two operations, so the buckets of one page are read at
different times and from different tiers.

* `Scan.Ok.client`, `Scan.Ok.others`: what every step of the client and of the others preserves.
* `Scan.Ok.progress`: a client that is not done can take a step.
* `Scan.delivers`: over every run, **the pages hold each record that was there before the first
  page exactly once, in strictly increasing order**, and the client is done after boundedly many
  steps.
-/

namespace Pulpitum

open Cutover (World)

/-! ### The client -/

/-- `MAX_PARALLEL_BUCKET_READS`. -/
def maxParallelBucketReads : ℕ := 4

/-- A spawned `read_bucket`. -/
structure BucketRead where
  bucket : BucketId
  task : Worker (Except DurableTableError (List Record))

namespace Scan

/-- Where the client is. -/
inductive Stage where
  /-- About to call `query_page`. -/
  | between
  /-- In `read_buckets`: the buckets not yet spawned, the spawned reads, and the result so far.  A
  single bucket is read without a task, which makes no difference here. -/
  | reading (waiting : List BucketId) (reads : List BucketRead) (result : List Record)
  /-- The last page had no `next`. -/
  | finished
  | failed (e : DurableTableError)
  | panicked

end Scan

/-- A client that pages through a query: the pages it was given, the cursor it goes on from, and
where it is. -/
structure Scan where
  pages : List (List Record)
  after : Option Cursor
  stage : Scan.Stage

namespace Scan

/-- A client about to ask for the first page. -/
def start : Scan := ⟨[], none, .between⟩

/-- Everything the client was given. -/
def out (scan : Scan) : List Record := scan.pages.flatten

/-- `spawn_bucket_read`. -/
def spawn (query : Query) (after : Option Cursor) (bucket : BucketId) : BucketRead :=
  ⟨bucket, readBucket bucket query.range after query.pageCapacity⟩

/-- A page arrives; without a `next` it is the last. -/
def turn (scan : Scan) (page : QueryPage) : Scan where
  pages := scan.pages ++ [page.records]
  after := page.next
  stage := if page.next.isSome then .between else .finished

/-- `query_page` is called, up to its first await. -/
def call (table : DurableTable) (query : Query) (scan : Scan) : Scan :=
  match table.openPage { query with after := scan.after } with
  | none => { scan with stage := .panicked }
  | some (.error e) => { scan with stage := .failed e }
  | some (.ok (.inl page)) => scan.turn page
  | some (.ok (.inr buckets)) =>
      { scan with
        stage := .reading (buckets.drop maxParallelBucketReads)
          ((buckets.take maxParallelBucketReads).map (spawn query scan.after)) [] }

/-- One step of the client over the stores `S`. -/
inductive Step (S : Services) (table : DurableTable) (query : Query) :
    S.State → Scan → S.State → Scan → Prop where
  | call {s pages after} : Step S table query s ⟨pages, after, .between⟩ s
      (Scan.call table query ⟨pages, after, .between⟩)
  /-- An operation of a read takes effect. -/
  | serve {s s' pages after waiting l l' result b} {q : Request}
      {k : q.Reply → Worker (Except DurableTableError (List Record))} {r : q.Reply}
      (h : S.serve q s r s') :
      Step S table query s
        ⟨pages, after, .reading waiting (l ++ ⟨b, .ask (.call q) k⟩ :: l') result⟩
        s' ⟨pages, after, .reading waiting (l ++ ⟨b, k r⟩ :: l') result⟩
  /-- `join_next` returns a read, and the next bucket is spawned. -/
  | join {s pages after waiting l l' result b} {records : List Record} :
      Step S table query s
        ⟨pages, after, .reading waiting (l ++ ⟨b, .ret (.ok records)⟩ :: l') result⟩ s
        ⟨pages, after, .reading waiting.tail
          (l ++ l' ++ (waiting.take 1).map (spawn query after)) (result ++ records)⟩
  /-- `join_next` returns a failed read. -/
  | fail {s pages after waiting l l' result b e} :
      Step S table query s ⟨pages, after, .reading waiting (l ++ ⟨b, .ret (.error e)⟩ :: l') result⟩
        s ⟨pages, after, .failed e⟩
  | finish {s pages after result} :
      Step S table query s ⟨pages, after, .reading [] [] result⟩ s
        (turn ⟨pages, after, .reading [] [] result⟩ (cutPage query.limit result))

/-- Who takes a step. -/
inductive Party where
  | others
  | client
deriving DecidableEq

/-- One step of the client or of anyone else. -/
inductive Move (S : Services) (Good : BucketId → Prop) (table : DurableTable) (query : Query) :
    System S.State × Scan → Party → System S.State × Scan → Prop where
  | others {s s' scan} (h : System.Step S Good s s') :
      Move S Good table query (s, scan) .others (s', scan)
  | client {s s' as ws os scan scan'} (h : Step S table query s scan s' scan') :
      Move S Good table query (⟨s, as, ws, os⟩, scan) .client (⟨s', as, ws, os⟩, scan')

end Scan

/-! ### Reading both tiers -/

variable {S : Services}

/-- What readers need of the stores: every operation is answered, a bucket is read from the tier
it is in, and a published object is what readers of the bucket are given. -/
structure Refinement.ServesReads (R : Refinement S Coding.plain) : Prop where
  total : ∀ q s, ∃ r s', S.serve q s r s'
  readRange : ∀ {s s' w b range after limit}
    {r : Request.Reply (.store (.readRange b range after limit))},
    R.Tracks s w → Cutover.Inv w → S.serve (.store (.readRange b range after limit)) s r s' →
      R.Tracks s' w ∧
        ((∃ key d, (w.cell b).phase = .archived key d ∧ r = Except.ok (.archive key)) ∨
          r = Except.ok (.hot (selectArchived range after limit (w.visible b))))
  getBucket : ∀ {s s' w b key d} {r : Request.Reply (.archive (.getBucket b key))},
    R.Tracks s w → Cutover.Inv w → (w.cell b).phase = .archived key d →
      (∀ x ∈ w.visible b, x.partitionKey = b.partitionKey ∧ b.contains x.eventTime) →
      S.serve (.archive (.getBucket b key)) s r s' →
      R.Tracks s' w ∧ r = Except.ok (w.visible b)

namespace Scan

/-- Two records of the partition that were appended have different keys, and what was appended
fits in memory. -/
structure Fresh {σ : Type} (table : DurableTable) (query : Query) (s : System σ) : Prop where
  keys : s.appenders.Pairwise fun a a' =>
    a.TookEffect → a'.TookEffect → table.definition.bucketFor a.record = some a.bucket →
      table.definition.bucketFor a'.record = some a'.bucket →
      a.record.partitionKey = query.partitionKey → a'.record.partitionKey = query.partitionKey →
      a.record.clusteringKey ≠ a'.record.clusteringKey
  fits : s.appenders.length ≤ usizeMax

theorem pairwise_replace {α : Type} {P : α → α → Prop} {l l' : List α} {x x' : α}
    (h : (l ++ x' :: l').Pairwise P) (hl : ∀ {y}, P y x' → P y x) (hr : ∀ {y}, P x' y → P x y) :
    (l ++ x :: l').Pairwise P := by
  obtain ⟨h₁, h₂, h₃⟩ := List.pairwise_append.mp h
  obtain ⟨h₄, h₅⟩ := List.pairwise_cons.mp h₂
  refine List.pairwise_append.mpr ⟨h₁, List.pairwise_cons.mpr ⟨fun y hy => hr (h₄ y hy), h₅⟩,
    fun y hy z hz => ?_⟩
  rcases List.mem_cons.mp hz with rfl | hz
  · exact hl (h₃ y hy x' (List.mem_cons_self ..))
  · exact h₃ y hy z (List.mem_cons_of_mem _ hz)

/-- Keys that are fresh after a step were fresh before it. -/
theorem Fresh.of_step {Good : BucketId → Prop} {table : DurableTable} {query : Query}
    {s s' : System S.State} (h : Fresh table query s') (hs : System.Step S Good s s') :
    Fresh table query s := by
  obtain ⟨hkeys, hfits⟩ := h
  cases hs with
  | openAppend =>
      exact ⟨(List.pairwise_cons.mp hkeys).2, (Nat.le_succ _).trans hfits⟩
  | send =>
      exact ⟨pairwise_replace hkeys (fun _ _ he => nomatch he) (fun _ he => nomatch he),
        by simpa using hfits⟩
  | serveAppend =>
      exact ⟨pairwise_replace hkeys (fun _ _ he => nomatch he) (fun _ he => nomatch he),
        by simpa using hfits⟩
  | deliver => exact ⟨pairwise_replace hkeys id id, by simpa using hfits⟩
  | lose => exact ⟨pairwise_replace hkeys id id, by simpa using hfits⟩
  | spawn | worker | orphan => exact ⟨hkeys, hfits⟩

/-! ### What holds during a scan -/

section Ok

variable (Err : Prop) (query : Query) (buckets : List BucketId) (base : BucketId → List Record)
  (w : World BucketId Record String)

/-- The records the client has to be given. -/
def Wanted (r : Record) : Prop := query.range.contains r.eventTime ∧ ∃ b ∈ buckets, r ∈ base b

/-- The contents of a bucket at some time since the scan began. -/
structure Seen (b : BucketId) (contents : List Record) : Prop where
  since : base b ⊆ contents
  sub : contents.Subperm (w.applied b)

/-- Where a read can be; it has failed only if reads do (`Err`). -/
inductive ReadOk (after : Option Cursor) : BucketRead → Prop where
  | asked {b : BucketId} : ReadOk after (spawn query after b)
  | located {b : BucketId} {key : String} {d : Bool} (h : (w.cell b).phase = .archived key d) :
      ReadOk after ⟨b, readArchived b query.range after query.pageCapacity key⟩
  | done {b : BucketId} {contents : List Record} (h : Seen base w b contents) :
      ReadOk after
        ⟨b, .ret (.ok (selectArchived query.range after query.pageCapacity contents))⟩
  | failed {b : BucketId} {e : DurableTableError} (h : Err) : ReadOk after ⟨b, .ret (.error e)⟩

/-- The state of `read_buckets`: every bucket is waiting, being read, or was read into the
result. -/
structure PageOk (after : Option Cursor) (waiting : List BucketId) (reads : List BucketRead)
    (result : List Record) (joined : List (BucketId × List Record)) : Prop where
  all : (joined.map Prod.fst ++ reads.map BucketRead.bucket ++ waiting).Perm buckets
  merged : result.Perm (joined.flatMap fun p =>
    selectArchived query.range after query.pageCapacity p.2)
  seen : ∀ p ∈ joined, Seen base w p.1 p.2
  reading : ∀ read ∈ reads, ReadOk Err query base w after read
  spawned : reads = [] → waiting = []

/-- The pages so far: everything wanted up to the cursor was returned, in order. -/
structure PagesOk (pages : List (List Record)) (after : Option Cursor) : Prop where
  scanned : Paging.Scanned Record.clusteringKey (Wanted query buckets base) pages.flatten
    (after.map Cursor.clusteringKey)
  full : pages.length ≤ pages.flatten.length

/-- What holds of the client in every state. -/
structure Ok (scan : Scan) : Prop where
  returned : ∀ r ∈ scan.out, query.range.contains r.eventTime ∧ ∃ b ∈ buckets, r ∈ w.applied b
  kept : ∀ b, base b ⊆ w.applied b
  stage : match scan.stage with
    | .between => PagesOk query buckets base scan.pages scan.after
    | .reading waiting reads result => PagesOk query buckets base scan.pages scan.after ∧
        ∃ joined, PageOk Err query buckets base w scan.after waiting reads result joined
    | .finished => scan.out.Pairwise (fun a b => a.clusteringKey < b.clusteringKey) ∧
        (∀ r, Wanted query buckets base r → r ∈ scan.out) ∧
        scan.pages.length ≤ scan.out.length + 1
    | .failed _ => Err ∧ PagesOk query buckets base scan.pages scan.after
    | .panicked => False

/-- No two records in the buckets have one key, and they fit in memory. -/
structure Apart : Prop where
  distinct : Paging.Distinct Record.clusteringKey (buckets.flatMap w.applied)
  fits : (buckets.flatMap w.applied).length ≤ usizeMax

end Ok

variable {Err : Prop} {query : Query} {buckets : List BucketId} {base : BucketId → List Record}
  {w w' : World BucketId Record String} {table : DurableTable}

theorem isAfter_iff {after : Option Cursor} {r : Record} :
    isAfter after r ↔ Paging.After (after.map Cursor.clusteringKey) r.clusteringKey := by
  cases after <;> simp [isAfter, Paging.After]

/-! ### Steps of the others -/

theorem applied_sublist {l : Option (BucketId × Record)} (h : Cutover.Step w l w') (b : BucketId) :
    (w.applied b).Sublist (w'.applied b) := by
  rw [h.applied_eq b]
  exact List.sublist_append_right ..

theorem Seen.step {b : BucketId} {contents : List Record} {l : Option (BucketId × Record)}
    (h : Seen base w b contents) (hs : Cutover.Step w l w') : Seen base w' b contents :=
  ⟨h.since, h.sub.trans (applied_sublist hs b).subperm⟩

theorem ReadOk.step {after : Option Cursor} {read : BucketRead} {l : Option (BucketId × Record)}
    (h : ReadOk Err query base w after read) (hs : Cutover.Step w l w') :
    ReadOk Err query base w' after read := by
  cases h with
  | asked => exact .asked
  | located hp =>
      obtain ⟨d', hp'⟩ := hs.archived_permanent hp
      exact .located hp'
  | done hseen => exact .done (hseen.step hs)
  | failed herr => exact .failed herr

/-- **What the others do leaves the client where it is.** -/
theorem Ok.others {scan : Scan} {l : Option (BucketId × Record)}
    (h : Ok Err query buckets base w scan)
    (hs : Cutover.Step w l w') : Ok Err query buckets base w' scan where
  returned r hr := by
    obtain ⟨hin, b, hb, hmem⟩ := h.returned r hr
    exact ⟨hin, b, hb, (applied_sublist hs b).subset hmem⟩
  kept b := fun _ hr => (applied_sublist hs b).subset (h.kept b hr)
  stage := by
    have hstage := h.stage
    obtain ⟨pages, after, stage⟩ := scan
    cases stage with
    | between => exact hstage
    | reading waiting reads result =>
        obtain ⟨hpages, joined, hpage⟩ := hstage
        exact ⟨hpages, joined, hpage.all, hpage.merged, fun p hp => (hpage.seen p hp).step hs,
          fun read hread => (hpage.reading read hread).step hs, hpage.spawned⟩
    | finished => exact hstage
    | failed | panicked => exact hstage

/-- Keys that are apart were apart before. -/
theorem Apart.of_step {l : Option (BucketId × Record)} (h : Apart buckets w')
    (hs : Cutover.Step w l w') : Apart buckets w := by
  have hsub : (buckets.flatMap w.applied).Subperm (buckets.flatMap w'.applied) :=
    Paging.subperm_flatMap fun b _ => (applied_sublist hs b).subperm
  exact ⟨h.distinct.subperm hsub, hsub.length_le.trans h.fits⟩

/-! ### Steps of the client -/

/-- The operations a read has still to do, and its join. -/
def weight {α : Type} : Worker α → ℕ
  | .ret _ => 1
  | .ask (.call (.archive _)) _ => 2
  | .ask _ _ => 3

@[simp] theorem weight_ret {α : Type} (a : α) : weight (.ret a : Worker α) = 1 := rfl

@[simp]
theorem weight_spawn (query : Query) (after : Option Cursor) (b : BucketId) :
    weight (spawn query after b).task = 3 := rfl

/-- A bound on the steps to the end of the page, for `n` buckets. -/
def left (n : ℕ) (scan : Scan) : ℕ :=
  match scan.stage with
  | .between => 3 * n + 2
  | .reading waiting reads _ => 3 * waiting.length + (reads.map (weight ·.task)).sum + 1
  | .finished | .failed _ | .panicked => 0

/-- The number of pages asked for. -/
def opened (scan : Scan) : ℕ :=
  match scan.stage with
  | .between | .reading .. | .failed _ => scan.pages.length + 1
  | .finished | .panicked => scan.pages.length

/-- The step takes the client closer to the end of the page, or to the next one. -/
def Advances (n : ℕ) (scan scan' : Scan) : Prop :=
  scan'.left n + 1 + scan.opened * (3 * n + 2) ≤ scan.left n + scan'.opened * (3 * n + 2)

theorem openPage_eq (hr : query.range.start < query.range.endAt) (hl : 0 < query.limit)
    (after : Option Cursor) :
    table.openPage { query with after := after } =
      (table.definition.bucketsForRange query.partitionKey query.range).map fun bs =>
        .ok (.inr bs) := by
  unfold DurableTable.openPage
  rw [if_neg (not_le.mpr hr), if_neg hl.ne']
  cases table.definition.bucketsForRange query.partitionKey query.range <;> rfl

/-- Where the range cannot be routed, the call panics. -/
theorem call_panics {scan : Scan} (hr : query.range.start < query.range.endAt)
    (hl : 0 < query.limit)
    (hb : table.definition.bucketsForRange query.partitionKey query.range = none) :
    (Scan.call table query scan).stage = .panicked := by
  unfold Scan.call
  rw [openPage_eq hr hl, hb]
  rfl

/-- A call opens all buckets, four of them at once. -/
theorem Ok.call {pages : List (List Record)} {after : Option Cursor}
    (hr : query.range.start < query.range.endAt) (hl : 0 < query.limit)
    (hb : table.definition.bucketsForRange query.partitionKey query.range = some buckets)
    (h : Ok Err query buckets base w ⟨pages, after, .between⟩) :
    Ok Err query buckets base w (Scan.call table query ⟨pages, after, .between⟩) ∧
      Advances buckets.length ⟨pages, after, .between⟩
        (Scan.call table query ⟨pages, after, .between⟩) := by
  have hcall : Scan.call table query ⟨pages, after, .between⟩ =
      ⟨pages, after, .reading (buckets.drop maxParallelBucketReads)
        ((buckets.take maxParallelBucketReads).map (spawn query after)) []⟩ := by
    unfold Scan.call
    rw [openPage_eq hr hl, hb]
    rfl
  have hbuckets : ((buckets.take maxParallelBucketReads).map (spawn query after)).map
      BucketRead.bucket = buckets.take maxParallelBucketReads := by
    rw [List.map_map]
    exact List.map_id _
  rw [hcall]
  refine ⟨⟨h.returned, h.kept, h.stage, [], ?_, .refl _, fun _ hp => absurd hp List.not_mem_nil,
    fun read hread => ?_, fun hnil => ?_⟩, ?_⟩
  · rw [hbuckets]
    simp
  · obtain ⟨b, -, rfl⟩ := List.mem_map.mp hread
    exact .asked
  · have : buckets = [] := by
      simpa [maxParallelBucketReads] using hnil
    simp [this]
  · have hw : ((buckets.take maxParallelBucketReads).map (spawn query after)).map
        (weight ·.task) = (buckets.take maxParallelBucketReads).map fun _ => 3 := by
      rw [List.map_map]
      rfl
    simp only [Advances, left, opened, hw, List.length_drop, List.map_const', List.sum_replicate,
      List.length_take, smul_eq_mul]
    omega

/-- What readers of a bucket are given is its contents at this time. -/
theorem Ok.seen {scan : Scan} (h : Ok Err query buckets base w scan) (hi : Cutover.Inv w)
    (b : BucketId) : Seen base w b (w.visible b) :=
  ⟨fun _ hr => (hi.visible_perm b).mem_iff.mpr (h.kept b hr), (hi.visible_perm b).subperm⟩

variable {R : Refinement S Coding.plain} {s s' : S.State}

/-- An operation of a read takes effect. -/
theorem ReadOk.serve (hR : R.ServesReads) (ht : R.Tracks s w) (hi : Cutover.Inv w)
    (hrouted : ∀ b, ∀ x ∈ w.visible b, x.partitionKey = b.partitionKey ∧ b.contains x.eventTime)
    (hseen : ∀ b, Seen base w b (w.visible b)) {after : Option Cursor} {b : BucketId}
    {q : Request} {k : q.Reply → Worker (Except DurableTableError (List Record))} {r : q.Reply}
    (h : ReadOk Err query base w after ⟨b, .ask (.call q) k⟩) (hs : S.serve q s r s') :
    R.Tracks s' w ∧ ReadOk Err query base w after ⟨b, k r⟩ ∧
      weight (k r) + 1 ≤ weight (.ask (.call q) k) := by
  generalize hread : (⟨b, .ask (.call q) k⟩ : BucketRead) = read at h
  cases h with
  | asked =>
      rw [spawn, readBucket_eq] at hread
      cases hread
      obtain ⟨ht', hr⟩ := hR.readRange ht hi hs
      rcases hr with ⟨key, d, hp, rfl⟩ | rfl
      · exact ⟨ht', .located hp, le_rfl⟩
      · exact ⟨ht', .done (hseen b), Nat.le_succ 2⟩
  | located hp =>
      cases hread
      obtain ⟨ht', rfl⟩ := hR.getBucket ht hi hp (hrouted b) hs
      exact ⟨ht', .done (hseen b), le_rfl⟩
  | done => cases hread
  | failed => cases hread

/-- A read that has ended returns the contents of its bucket at some time, or has failed. -/
theorem ReadOk.of_ret {after : Option Cursor} {b : BucketId}
    {reply : Except DurableTableError (List Record)}
    (h : ReadOk Err query base w after ⟨b, .ret reply⟩) :
    (∃ contents, Seen base w b contents ∧
      reply = .ok (selectArchived query.range after query.pageCapacity contents)) ∨
    Err ∧ ∃ e, reply = .error e := by
  generalize hread : (⟨b, .ret reply⟩ : BucketRead) = read at h
  cases h with
  | asked => cases hread
  | located => cases hread
  | done hseen => cases hread; exact .inl ⟨_, hseen, rfl⟩
  | failed herr => cases hread; exact .inr ⟨herr, _, rfl⟩

variable {pages : List (List Record)} {after : Option Cursor} {waiting : List BucketId}
  {l l' : List BucketRead} {result : List Record} {b : BucketId}

/-- One of the reads goes on. -/
theorem Ok.goOn {p p' : Worker (Except DurableTableError (List Record))}
    (h : Ok Err query buckets base w ⟨pages, after, .reading waiting (l ++ ⟨b, p⟩ :: l') result⟩)
    (hread : ReadOk Err query base w after ⟨b, p'⟩) (hweight : weight p' + 1 ≤ weight p) :
    Ok Err query buckets base w ⟨pages, after, .reading waiting (l ++ ⟨b, p'⟩ :: l') result⟩ ∧
      Advances buckets.length ⟨pages, after, .reading waiting (l ++ ⟨b, p⟩ :: l') result⟩
        ⟨pages, after, .reading waiting (l ++ ⟨b, p'⟩ :: l') result⟩ := by
  obtain ⟨hpages, joined, hpage⟩ := h.stage
  refine ⟨⟨h.returned, h.kept, hpages, joined, ?_, hpage.merged, hpage.seen,
    forall_mem_replace hpage.reading hread, fun hnil => ?_⟩, ?_⟩
  · simpa using hpage.all
  · exact absurd hnil (by simp)
  · simp only [Advances, left, opened, List.map_append, List.map_cons, List.sum_append,
      List.sum_cons]
    omega

/-- An operation of one of the reads takes effect. -/
theorem Ok.serve (hR : R.ServesReads) (ht : R.Tracks s w) (hi : Cutover.Inv w)
    (hrouted : ∀ b, ∀ x ∈ w.visible b, x.partitionKey = b.partitionKey ∧ b.contains x.eventTime)
    {q : Request} {k : q.Reply → Worker (Except DurableTableError (List Record))} {r : q.Reply}
    (h : Ok Err query buckets base w
      ⟨pages, after, .reading waiting (l ++ ⟨b, .ask (.call q) k⟩ :: l') result⟩)
    (hs : S.serve q s r s') :
    R.Tracks s' w ∧
      Ok Err query buckets base w ⟨pages, after, .reading waiting (l ++ ⟨b, k r⟩ :: l') result⟩ ∧
      Advances buckets.length
        ⟨pages, after, .reading waiting (l ++ ⟨b, .ask (.call q) k⟩ :: l') result⟩
        ⟨pages, after, .reading waiting (l ++ ⟨b, k r⟩ :: l') result⟩ := by
  obtain ⟨-, joined, hpage⟩ := h.stage
  obtain ⟨ht', hread, hweight⟩ := ReadOk.serve hR ht hi hrouted (h.seen hi)
    (hpage.reading _ (List.mem_append_right _ (List.mem_cons_self ..))) hs
  exact ⟨ht', h.goOn hread hweight⟩

/-- A read is joined, and the next bucket spawned. -/
theorem Ok.join {records : List Record}
    (h : Ok Err query buckets base w
      ⟨pages, after, .reading waiting (l ++ ⟨b, .ret (.ok records)⟩ :: l') result⟩) :
    Ok Err query buckets base w ⟨pages, after, .reading waiting.tail
        (l ++ l' ++ (waiting.take 1).map (spawn query after)) (result ++ records)⟩ ∧
      Advances buckets.length
        ⟨pages, after, .reading waiting (l ++ ⟨b, .ret (.ok records)⟩ :: l') result⟩
        ⟨pages, after, .reading waiting.tail
          (l ++ l' ++ (waiting.take 1).map (spawn query after)) (result ++ records)⟩ := by
  obtain ⟨hpages, joined, hpage⟩ := h.stage
  obtain ⟨contents, hseen, he⟩ | ⟨-, e, he⟩ :=
    (hpage.reading _ (List.mem_append_right _ (List.mem_cons_self ..))).of_ret
  rotate_left
  · cases he
  have hrecords : records = selectArchived query.range after query.pageCapacity contents :=
    Except.ok.inj he
  subst hrecords
  refine ⟨⟨h.returned, h.kept, hpages, joined ++ [(b, contents)], ?_, ?_, fun p hp => ?_,
    fun read hread => ?_, fun hnil => ?_⟩, ?_⟩
  · -- the bucket moves from the reads to what was joined, and the next from waiting to the reads
    refine List.Perm.trans ?_ hpage.all
    have hspawn : ((waiting.take 1).map (spawn query after)).map BucketRead.bucket =
        waiting.take 1 := by
      rw [List.map_map]
      exact List.map_id _
    have hsplit : waiting.take 1 ++ waiting.tail = waiting := by
      cases waiting <;> rfl
    simp only [List.map_append, List.map_cons, List.map_nil, hspawn, List.append_assoc, hsplit]
    refine List.Perm.append_left _ ?_
    rw [List.cons_append, List.nil_append]
    exact List.perm_middle.symm
  · rw [List.flatMap_append, List.flatMap_singleton]
    exact hpage.merged.append_right _
  · rcases List.mem_append.mp hp with hp | hp
    · exact hpage.seen p hp
    · rw [List.mem_singleton.mp hp]; exact hseen
  · rcases List.mem_append.mp hread with hread | hread
    · refine hpage.reading read ?_
      rcases List.mem_append.mp hread with hread | hread
      · exact List.mem_append_left _ hread
      · exact List.mem_append_right _ (List.mem_cons_of_mem _ hread)
    · obtain ⟨b', -, rfl⟩ := List.mem_map.mp hread
      exact .asked
  · cases waiting with
    | nil => rfl
    | cons b' waiting => simp at hnil
  · cases waiting with
    | nil => simp [Advances, left, opened]
    | cons b' waiting =>
        simp [Advances, left, opened]
        omega

/-- A failed read is joined, and the page fails. -/
theorem Ok.fail {e : DurableTableError}
    (h : Ok Err query buckets base w
      ⟨pages, after, .reading waiting (l ++ ⟨b, .ret (.error e)⟩ :: l') result⟩) :
    Ok Err query buckets base w ⟨pages, after, .failed e⟩ ∧
      Advances buckets.length
        ⟨pages, after, .reading waiting (l ++ ⟨b, .ret (.error e)⟩ :: l') result⟩
        ⟨pages, after, .failed e⟩ := by
  obtain ⟨hpages, joined, hpage⟩ := h.stage
  obtain ⟨_, -, he⟩ | ⟨herr, -⟩ :=
    (hpage.reading _ (List.mem_append_right _ (List.mem_cons_self ..))).of_ret
  · cases he
  · refine ⟨⟨h.returned, h.kept, herr, hpages⟩, ?_⟩
    simp only [Advances, left, opened]
    omega

/-! ### The end of a page -/

/-- What a read returns of the contents of its bucket, before it is truncated. -/
def matching (query : Query) (after : Option Cursor) (contents : List Record) : List Record :=
  (contents.filter fun r => query.range.contains r.eventTime).filter fun r => isAfter after r

theorem mem_matching {contents : List Record} {r : Record} :
    r ∈ matching query after contents ↔
      r ∈ contents ∧ query.range.contains r.eventTime ∧ isAfter after r := by
  simp only [matching, List.mem_filter, decide_eq_true_eq, and_assoc]

theorem cutPage_eq (limit : ℕ) (result : List Record) :
    cutPage limit result = ⟨(Paging.cut Record.clusteringKey limit result).1,
      (Paging.cut Record.clusteringKey limit result).2.map Record.cursor⟩ := by
  refine congrArg (QueryPage.mk _) ?_
  dsimp only [Paging.cut]
  rw [apply_ite (Option.map Record.cursor), Option.map_none]
  rfl

variable {joined : List (BucketId × List Record)}

/-- Once every bucket was read, what the reads matched is part of what was appended. -/
theorem PageOk.matching_subperm (h : PageOk Err query buckets base w after [] [] result joined) :
    (joined.map fun p => matching query after p.2).flatten.Subperm
      (buckets.flatMap w.applied) := by
  have hjoined : (joined.flatMap fun p => w.applied p.1).Perm (buckets.flatMap w.applied) := by
    have hall : (joined.map Prod.fst).Perm buckets := by simpa using h.all
    have := hall.flatMap_right w.applied
    rwa [List.flatMap_map] at this
  refine List.Subperm.trans ?_ hjoined.subperm
  rw [← List.flatMap_def]
  refine Paging.subperm_flatMap fun p hp => ?_
  exact ((List.filter_sublist.trans List.filter_sublist).subperm).trans (h.seen p hp).sub

/-- **The page is cut from everything the reads matched**, though each read was truncated. -/
theorem PageOk.cut_eq (h : PageOk Err query buckets base w after [] [] result joined)
    (hw : Apart buckets w) (hlimit : query.limit ≤ usizeMax) :
    Paging.cut Record.clusteringKey query.limit result =
      Paging.cut Record.clusteringKey query.limit
        (joined.map fun p => matching query after p.2).flatten := by
  have hsub := h.matching_subperm
  have hdist := hw.distinct.subperm hsub
  have hcap : query.limit < query.pageCapacity ∨ query.limit ≤ query.pageCapacity ∧
      (joined.map fun p => matching query after p.2).flatten.length ≤ query.limit := by
    have hlen := hsub.length_le.trans hw.fits
    unfold Query.pageCapacity
    omega
  rw [← Paging.cut_flatMap hdist hcap]
  have hmerged : result.Perm ((joined.map fun p => matching query after p.2).flatMap
      fun l => (Paging.sortOn Record.clusteringKey l).take query.pageCapacity) := by
    rw [List.flatMap_map]
    exact h.merged
  refine (Paging.cut_congr (hdist.subperm ?_) hmerged.symm).symm
  exact Paging.flatMap_take_subperm ..

/-- A page is cut and returned. -/
theorem Ok.finish (hl : 0 < query.limit) (hlimit : query.limit ≤ usizeMax) (hw : Apart buckets w)
    (h : Ok Err query buckets base w ⟨pages, after, .reading [] [] result⟩) :
    Ok Err query buckets base w
        (turn ⟨pages, after, .reading [] [] result⟩ (cutPage query.limit result)) ∧
      Advances buckets.length ⟨pages, after, .reading [] [] result⟩
        (turn ⟨pages, after, .reading [] [] result⟩ (cutPage query.limit result)) := by
  obtain ⟨⟨hscanned, hfull⟩, joined, hpage⟩ := h.stage
  have hfull : pages.length ≤ pages.flatten.length := hfull
  set all := (joined.map fun p => matching query after p.2).flatten with hall
  have hsub : all.Subperm (buckets.flatMap w.applied) := hpage.matching_subperm
  have hcut := Paging.cut_isCut hl (hw.distinct.subperm hsub)
  have hmem : ∀ {r}, r ∈ all ↔ ∃ p ∈ joined, r ∈ p.2 ∧ query.range.contains r.eventTime ∧
      isAfter after r := by
    intro r
    simp only [hall, List.mem_flatten, List.mem_map, exists_exists_and_eq_and, mem_matching]
  have hafter : ∀ r ∈ all, Paging.After (after.map Cursor.clusteringKey) r.clusteringKey := by
    intro r hr
    obtain ⟨p, -, -, -, hafter⟩ := hmem.mp hr
    exact isAfter_iff.mp hafter
  have hwanted : ∀ r, Wanted query buckets base r →
      Paging.After (after.map Cursor.clusteringKey) r.clusteringKey → r ∈ all := by
    rintro r ⟨hin, b, hb, hr⟩ hr'
    have hb : b ∈ joined.map Prod.fst := by
      have := hpage.all.mem_iff.mpr hb
      simpa using this
    obtain ⟨p, hp, rfl⟩ := List.mem_map.mp hb
    exact hmem.mpr ⟨p, hp, (hpage.seen p hp).since hr, hin, isAfter_iff.mpr hr'⟩
  have hreturned : ∀ r ∈ (pages ++ [(Paging.cut Record.clusteringKey query.limit all).1]).flatten,
      query.range.contains r.eventTime ∧ ∃ b ∈ buckets, r ∈ w.applied b := by
    intro r hr
    rw [List.flatten_append, List.flatten_singleton] at hr
    rcases List.mem_append.mp hr with hr | hr
    · exact h.returned r hr
    · obtain ⟨-, -, -, hin, -⟩ := hmem.mp (hcut.sub hr)
      exact ⟨hin, List.mem_flatMap.mp (hsub.subset (hcut.sub hr))⟩
  rw [cutPage_eq, hpage.cut_eq hw hlimit, ← hall]
  cases hlast : (Paging.cut Record.clusteringKey query.limit all).2 with
  | none =>
      rw [hlast] at hcut
      have hstrict := hscanned.strict_append hafter hcut
      refine ⟨⟨hreturned, h.kept, ?_, fun r hr => ?_, ?_⟩, ?_⟩
      · simpa [turn, out] using hstrict
      · simpa [turn, out] using hscanned.last hwanted hcut hr
      · simp only [turn, out, List.length_append, List.length_singleton, List.flatten_append]
        omega
      · simp [Advances, left, opened, turn]
  | some z =>
      rw [hlast] at hcut
      have hlen := Paging.length_of_cut hlast
      refine ⟨⟨hreturned, h.kept, ?_, ?_⟩, ?_⟩
      · simpa [turn, out] using hscanned.cut hwanted hafter hcut
      · simp only [turn, List.length_append, List.length_singleton, List.flatten_append,
          List.flatten_singleton, hlen]
        omega
      · simp [Advances, left, opened, turn]
        ring_nf
        omega

/-! ### Whole runs -/

/-- **Every step of the client** leaves it in order and takes it further. -/
theorem Ok.client {scan scan' : Scan} (hR : R.ServesReads) (ht : R.Tracks s w)
    (hi : Cutover.Inv w)
    (hrouted : ∀ b, ∀ x ∈ w.visible b, x.partitionKey = b.partitionKey ∧ b.contains x.eventTime)
    (hr : query.range.start < query.range.endAt) (hl : 0 < query.limit)
    (hlimit : query.limit ≤ usizeMax)
    (hb : table.definition.bucketsForRange query.partitionKey query.range = some buckets)
    (hw : Apart buckets w) (h : Ok Err query buckets base w scan)
    (hs : Step S table query s scan s' scan') :
    R.Tracks s' w ∧ Ok Err query buckets base w scan' ∧ Advances buckets.length scan scan' := by
  cases hs with
  | call => exact ⟨ht, h.call hr hl hb⟩
  | serve hs => exact h.serve hR ht hi hrouted hs
  | join => exact ⟨ht, h.join⟩
  | fail => exact ⟨ht, h.fail⟩
  | finish => exact ⟨ht, h.finish hl hlimit hw⟩

/-- **A client that is not done can take a step.** -/
theorem Ok.progress {scan : Scan} (table : DurableTable) (hR : R.ServesReads) (s : S.State)
    (h : Ok Err query buckets base w scan) (hdone : scan.stage ≠ .finished)
    (hserved : ∀ e, scan.stage ≠ .failed e) :
    ∃ s' scan', Step S table query s scan s' scan' := by
  have hstage := h.stage
  obtain ⟨pages, after, stage⟩ := scan
  cases stage with
  | between => exact ⟨s, _, .call⟩
  | reading waiting reads result =>
      obtain ⟨-, joined, hpage⟩ := hstage
      cases reads with
      | nil =>
          obtain rfl := hpage.spawned rfl
          exact ⟨s, _, .finish⟩
      | cons read reads =>
          have hread : ReadOk Err query base w after read :=
            hpage.reading read (List.mem_cons_self ..)
          cases hread with
          | asked =>
              obtain ⟨r, s', hs⟩ := hR.total _ s
              exact ⟨s', _, .serve (l := []) hs⟩
          | located =>
              obtain ⟨r, s', hs⟩ := hR.total _ s
              exact ⟨s', _, .serve (l := []) hs⟩
          | done => exact ⟨s, _, .join (l := [])⟩
          | failed => exact ⟨s, _, .fail (l := [])⟩
  | finished => exact absurd rfl hdone
  | failed e => exact absurd rfl (hserved e)
  | panicked => exact hstage.elim

variable {sys sys' : System S.State}

theorem mem_stored {c : BucketId} {r : Record} :
    r ∈ sys.stored Coding.plain c ↔
      ∃ a ∈ sys.appenders, a.TookEffect ∧ a.bucket = c ∧ a.record = r :=
  System.mem_stored

/-- What was appended to a bucket belongs there. -/
theorem routed_of_sound (h : Sound R sys w) {r : Record} (hr : r ∈ w.applied b) :
    r.partitionKey = b.partitionKey ∧ b.contains r.eventTime := by
  obtain ⟨a, ha, -, rfl, rfl⟩ := mem_stored.mp ((h.applied b).mem_iff.mp hr)
  have hadmits := (h.appenders a ha).admits
  exact ⟨hadmits.partitionKey.symm, DurableTable.Routes.contains hadmits.opens⟩

/-- What is in the buckets `ap` is what was appended to them. -/
def Filed (sys : System S.State) (ap : BucketId → List Record) : Prop :=
  ∀ b r, r ∈ ap b ↔ ∃ a ∈ sys.appenders, a.TookEffect ∧ a.bucket = b ∧ a.record = r

theorem filed_of_sound (h : Sound R sys w) : Filed sys w.applied := by
  intro b r
  rw [(h.applied b).mem_iff, mem_stored]

/-- Different records that were appended are at most as many as the appends. -/
theorem Filed.length_le {ap : BucketId → List Record} (h : Filed sys ap) {rs : List Record}
    (hn : rs.Nodup) (hrs : ∀ r ∈ rs, ∃ b ∈ buckets, r ∈ ap b) :
    rs.length ≤ sys.appenders.length := by
  have hsub : rs ⊆ sys.appenders.map Appender.record := by
    intro r hr
    obtain ⟨b, -, hr⟩ := hrs r hr
    obtain ⟨a, ha, -, -, rfl⟩ := (h b r).mp hr
    exact List.mem_map_of_mem ha
  simpa using (hn.subperm hsub).length_le

theorem length_le_appenders (h : Sound R sys w) {rs : List Record} (hn : rs.Nodup)
    (hrs : ∀ r ∈ rs, ∃ b ∈ buckets, r ∈ w.applied b) : rs.length ≤ sys.appenders.length :=
  (filed_of_sound h).length_le hn hrs

/-- Fresh keys keep the records of the routed buckets apart. -/
theorem apart_of_sound (h : Sound R sys w) (hf : Fresh table query sys)
    (hb : table.definition.bucketsForRange query.partitionKey query.range = some buckets) :
    Apart buckets w := by
  have hdistinct : Paging.Distinct Record.clusteringKey (buckets.flatMap w.applied) := by
    refine List.pairwise_flatMap.mpr ⟨fun b hmem => ?_, ?_⟩
    · -- two appends to one bucket are two appends of the table
      refine Paging.Distinct.perm ?_ (h.applied b).symm
      refine List.pairwise_filterMap.mpr ((List.Pairwise.and_mem.mp hf.keys).imp ?_)
      rintro a a' ⟨ha, ha', hne⟩ r hr r' hr'
      have filed : ∀ a ∈ sys.appenders, ∀ r, a.stored Coding.plain b = some r →
          a.TookEffect ∧ table.definition.bucketFor a.record = some a.bucket ∧
            a.record.partitionKey = query.partitionKey ∧ a.record = r := by
        intro a ha r hr
        have hmem' : r ∈ sys.stored Coding.plain b := List.mem_filterMap.mpr ⟨a, ha, hr⟩
        have hroute := TableDefinition.bucketForEventTime_of_mem hb hmem
        obtain ⟨-, -, hpk, -⟩ := BucketId.forEventTimeWithStrategy_eq_some hroute
        unfold Appender.stored at hr
        split at hr
        · rename_i heff
          rw [Option.ite_none_right_eq_some] at hr
          obtain ⟨hbucket, hrec⟩ := hr
          have hbucket : a.bucket = b := hbucket
          have hadmits := (h.appenders a ha).admits
          have hcontains : a.bucket.contains a.record.eventTime :=
            DurableTable.Routes.contains hadmits.opens
          have hpart : a.record.partitionKey = query.partitionKey := by
            rw [← hadmits.partitionKey, hbucket, hpk]
          refine ⟨heff, ?_, hpart, Option.some.inj hrec⟩
          rw [TableDefinition.bucketFor, hpart, hbucket]
          exact BucketId.forEventTimeWithStrategy_of_contains hroute (hbucket ▸ hcontains)
        · cases hr
      obtain ⟨h₁, h₂, h₃, rfl⟩ := filed a ha r hr
      obtain ⟨h₁', h₂', h₃', rfl⟩ := filed a' ha' r' hr'
      exact hne h₁ h₁' h₂ h₂' h₃ h₃'
    · -- records of two buckets differ in their event times
      refine (TableDefinition.bucketsForRange_pairwise hb).imp fun {b₁ b₂} hle x hx y hy => ?_
      have h₁ := (routed_of_sound h hx).2
      have h₂ := (routed_of_sound h hy).2
      have hlt : x.eventTime < y.eventTime := (h₁.2.trans_le hle).trans_le h₂.1
      intro heq
      exact hlt.ne (congrArg (fun k => (ofLex k).1) heq)
  exact ⟨hdistinct, (length_le_appenders h hdistinct.nodup fun r hr => List.mem_flatMap.mp hr).trans
    hf.fits⟩

/-- What a client was given, of what was there when it began (`s₀`) and what is there now (`s`). -/
structure Given {σ : Type} (table : DurableTable) (query : Query) (s₀ s : System σ) (scan : Scan) :
    Prop where
  increasing : scan.out.Pairwise fun r r' => r.clusteringKey < r'.clusteringKey
  nodup : scan.out.Nodup
  /-- Only records that were appended, and lie in the range. -/
  appended : ∀ r ∈ scan.out, query.range.contains r.eventTime ∧
    ∃ a ∈ s.appenders, a.TookEffect ∧ a.record = r
  /-- A client that is done was given every record that was there before, once. -/
  complete : scan.stage = .finished → ∀ a ∈ s₀.appenders, a.TookEffect →
    table.definition.bucketFor a.record = some a.bucket →
    a.record.partitionKey = query.partitionKey → query.range.contains a.record.eventTime →
    scan.out.count a.record = 1

/-- What a client is given, over the run `l` from the state `s₀` to the state `s`. -/
structure Delivers (Good : BucketId → Prop) (table : DurableTable) (query : Query)
    (s₀ : System S.State) (l : List Party) (s : System S.State) (scan : Scan) : Prop
    extends Given table query s₀ s scan where
  /-- No page fails or panics. -/
  served : scan.stage ≠ .panicked ∧ ∀ e, scan.stage ≠ .failed e
  /-- A client that is not done can go on. -/
  progress : scan.stage ≠ .finished → ∃ x, Move S Good table query (s, scan) .client x
  /-- The client takes boundedly many steps, if there are boundedly many appends. -/
  bounded : l.count .client ≤ (s.appenders.length + 1) *
    (3 * ((table.definition.bucketsForRange query.partitionKey query.range).getD []).length + 2)

section Given

variable {sys₀ : System S.State} {scan : Scan}

theorem Ok.increasing (hok : Ok Err query buckets base w scan) :
    scan.out.Pairwise fun r r' => r.clusteringKey < r'.clusteringKey := by
  have hstage := hok.stage
  obtain ⟨pages, after, stage⟩ := scan
  cases stage with
  | between => exact hstage.scanned.strict
  | reading => exact hstage.1.scanned.strict
  | finished => exact hstage.1
  | failed => exact hstage.2.scanned.strict
  | panicked => exact hstage.elim

theorem Ok.nodup (hok : Ok Err query buckets base w scan) : scan.out.Nodup :=
  hok.increasing.imp fun hlt e => hlt.ne (congrArg _ e)

theorem Ok.not_panicked (hok : Ok Err query buckets base w scan) : scan.stage ≠ .panicked := by
  intro e
  have hstage := hok.stage
  rw [e] at hstage
  exact hstage

theorem Ok.err_of_failed {e : DurableTableError} (hok : Ok Err query buckets base w scan)
    (he : scan.stage = .failed e) : Err := by
  have hstage := hok.stage
  rw [he] at hstage
  exact hstage.1

/-- A client that is in order was given what it should. -/
theorem Ok.given (h₀ : Filed sys₀ base) (h : Filed sys w.applied)
    (hb : table.definition.bucketsForRange query.partitionKey query.range = some buckets)
    (hok : Ok Err query buckets base w scan) : Given table query sys₀ sys scan := by
  refine ⟨hok.increasing, hok.nodup, fun r hr => ?_, fun hdone a ha heff hfile hpart hin => ?_⟩
  · obtain ⟨hin, b, -, hmem⟩ := hok.returned r hr
    obtain ⟨a, ha, heff, -, hrec⟩ := (h b r).mp hmem
    exact ⟨hin, a, ha, heff, hrec⟩
  · have hstage := hok.stage
    rw [hdone] at hstage
    obtain ⟨b, hbmem, hroute⟩ := TableDefinition.mem_bucketsForRange hb hin
    rw [← hpart] at hroute
    obtain rfl : a.bucket = b := Option.some.inj (hfile.symm.trans hroute)
    have hwanted : Wanted query buckets base a.record :=
      ⟨hin, a.bucket, hbmem, (h₀ a.bucket a.record).mpr ⟨a, ha, heff, rfl, rfl⟩⟩
    exact List.count_eq_one_of_mem hok.nodup (hstage.2.1 _ hwanted)

/-- At most one more page is asked for than records were appended. -/
theorem Ok.opened_le (h : Filed sys w.applied) (hok : Ok Err query buckets base w scan) :
    scan.opened ≤ sys.appenders.length + 1 := by
  have hlen : scan.out.length ≤ sys.appenders.length :=
    h.length_le hok.nodup fun r hr => (hok.returned r hr).2
  have hstage := hok.stage
  obtain ⟨pages, after, stage⟩ := scan
  cases stage with
  | between => exact Nat.succ_le_succ (hstage.full.trans hlen)
  | reading => exact Nat.succ_le_succ (hstage.1.full.trans hlen)
  | finished => exact hstage.2.2.trans (Nat.succ_le_succ hlen)
  | failed => exact Nat.succ_le_succ (hstage.2.full.trans hlen)
  | panicked => exact hstage.elim

end Given

/-- A client that is in order is given what it should. -/
theorem Ok.delivers {w₀ : World BucketId Record String} {sys₀ : System S.State} {scan : Scan}
    {l : List Party} (hR : R.ServesReads) (h₀ : Sound R sys₀ w₀) (h : Sound R sys w)
    (hb : table.definition.bucketsForRange query.partitionKey query.range = some buckets)
    (hok : Ok False query buckets w₀.applied w scan)
    (hcount : l.count .client + scan.left buckets.length ≤
      scan.opened * (3 * buckets.length + 2)) :
    Delivers BucketId.Canonical table query sys₀ l sys scan := by
  have hserved : ∀ e, scan.stage ≠ .failed e := fun _ he => hok.err_of_failed he
  refine ⟨hok.given (filed_of_sound h₀) (filed_of_sound h) hb, ⟨hok.not_panicked, hserved⟩,
    fun hdone => ?_, ?_⟩
  · obtain ⟨s', scan', hstep⟩ := hok.progress table hR sys.services hdone hserved
    exact ⟨_, .client hstep⟩
  · rw [hb]
    exact (Nat.le_of_add_right_le hcount).trans
      (Nat.mul_le_mul_right _ (hok.opened_le (filed_of_sound h)))

/-- **Along a run** of appends and archival, as far as the keys have stayed fresh, a client that
began in a sound state is in order. -/
theorem ok_of_run {w₀ : World BucketId Record String} {sys₀ : System S.State} {scan : Scan}
    {l : List Party} (hR : R.ServesReads) (h₀ : Sound R sys₀ w₀)
    (hr : query.range.start < query.range.endAt) (hl : 0 < query.limit)
    (hlimit : query.limit ≤ usizeMax)
    (hb : table.definition.bucketsForRange query.partitionKey query.range = some buckets)
    (hrun : Run (Move S BucketId.Canonical table query) (sys₀, .start) l (sys, scan)) :
    Fresh table query sys → ∃ w, Sound R sys w ∧ Ok False query buckets w₀.applied w scan ∧
      l.count .client + scan.left buckets.length ≤ scan.opened * (3 * buckets.length + 2) := by
  refine Run.rec_last (P := fun l x => Fresh table query x.1 → ∃ w, Sound R x.1 w ∧
    Ok False query buckets w₀.applied w x.2 ∧
      l.count .client + x.2.left buckets.length ≤ x.2.opened * (3 * buckets.length + 2))
    (fun _ => ⟨w₀, h₀, ⟨fun _ => (absurd · List.not_mem_nil), fun _ _ => id, ?_⟩, ?_⟩) ?_ hrun
  · exact ⟨Paging.Scanned.init, le_rfl⟩
  · simp [left, opened, start]
  · rintro l ⟨s, scan⟩ party ⟨s', scan'⟩ - ih hmove hf
    cases hmove with
    | others hstep =>
        obtain ⟨w, hsound, hok, hcount⟩ := ih (hf.of_step hstep)
        obtain ⟨lab, w', hw, hsound'⟩ := hsound.step Coding.admits_plain hstep
        exact ⟨w', hsound', hok.others hw, by simpa using hcount⟩
    | @client s s' as ws os scan scan' hstep =>
        obtain ⟨w, hsound, hok, hcount⟩ := ih ⟨hf.keys, hf.fits⟩
        have hrouted : ∀ b, ∀ x ∈ w.visible b,
            x.partitionKey = b.partitionKey ∧ b.contains x.eventTime := fun b x hx =>
          routed_of_sound hsound ((hsound.inv.visible_perm b).mem_iff.mp hx)
        obtain ⟨ht', hok', hadvances⟩ := hok.client hR hsound.tracks hsound.inv hrouted hr hl hlimit
          hb (apart_of_sound hsound ⟨hf.keys, hf.fits⟩ hb) hstep
        refine ⟨w, hsound.serve .skip ht' rfl hsound.workers hsound.orphans, hok', ?_⟩
        have hone : (l ++ [Party.client]).count .client = l.count .client + 1 := by simp
        unfold Advances at hadvances
        dsimp only at hcount hadvances ⊢
        omega

/-- **Paging is complete, in order and ends.**  Over every run of appends and archival, with keys
that stay fresh, a client that began in a sound state is given what it should. -/
theorem delivers {w₀ : World BucketId Record String} {sys₀ : System S.State} {scan : Scan}
    {l : List Party} (hR : R.ServesReads) (h₀ : Sound R sys₀ w₀)
    (hr : query.range.start < query.range.endAt) (hl : 0 < query.limit)
    (hlimit : query.limit ≤ usizeMax)
    (hb : table.definition.bucketsForRange query.partitionKey query.range = some buckets)
    (hrun : Run (Move S BucketId.Canonical table query) (sys₀, .start) l (sys, scan))
    (hf : Fresh table query sys) : Delivers BucketId.Canonical table query sys₀ l sys scan := by
  obtain ⟨w, hsound, hok, hcount⟩ := ok_of_run hR h₀ hr hl hlimit hb hrun hf
  exact hok.delivers hR h₀ hsound hb hcount

end Scan

end Pulpitum
