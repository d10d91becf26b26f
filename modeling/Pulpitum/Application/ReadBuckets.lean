import Mathlib
import Pulpitum.Support.Merge
import Pulpitum.Domain.Routing
import Pulpitum.Application.Pagination

/-!
# Application — ReadBuckets

One call of `query_page` and its parallel reads.  `read_buckets` reads a single bucket itself, and
more than one in tasks, four at once at most; the reads end in any order, and what they return is
put together in that order, sorted and cut.

* `Accounted.step`, `accounted_of_run`: every bucket is read once, and a read that fails ends the
  call.
* `page_eq`: the page that is cut is that of a plain query.
* `page_read_iff`: **the parallel read is the plain query**, for the ranges that can be routed.
-/

namespace Pulpitum

/-- Where a call of `read_buckets` is. -/
inductive ReadBuckets where
  /-- The only bucket is being read, without a task. -/
  | alone (bucket : BucketId)
  /-- The buckets not yet spawned, those being read, and the result so far. -/
  | joining (waiting reads : List BucketId) (result : List Record)
  | done (r : Except DurableTableError (List Record))

namespace ReadBuckets

/-- `read_buckets`, up to its first await. -/
def start : List BucketId → ReadBuckets
  | [] => .done (.ok [])
  | [first] => .alone first
  | first :: second :: buckets =>
      .joining (buckets.drop (maxParallelBucketReads - 2))
        (first :: second :: buckets.take (maxParallelBucketReads - 2)) []

/-- A read that has ended: its bucket, and what it returned. -/
abbrev Ended := BucketId × Except DurableTableError (List Record)

/-- One step.  A read ends, whichever it is, or `join_next` finds none. -/
inductive Step (Returns : BucketId → Except DurableTableError (List Record) → Prop) :
    ReadBuckets → Option Ended → ReadBuckets → Prop where
  | alone {b r} (h : Returns b r) : Step Returns (.alone b) (some (b, r)) (.done r)
  /-- The read is joined, and the next bucket is spawned. -/
  | join {waiting l l' result b records} (h : Returns b (.ok records)) :
      Step Returns (.joining waiting (l ++ b :: l') result) (some (b, .ok records))
        (.joining waiting.tail (l ++ l' ++ waiting.take 1) (result ++ records))
  /-- The read has failed: `read_buckets` returns, and drops the other tasks. -/
  | fail {waiting l l' result b e} (h : Returns b (.error e)) :
      Step Returns (.joining waiting (l ++ b :: l') result) (some (b, .error e)) (.done (.error e))
  | finish {waiting result} : Step Returns (.joining waiting [] result) none (.done (.ok result))

/-- The buckets that are being read. -/
def inFlight : ReadBuckets → List BucketId
  | .alone b => [b]
  | .joining _ reads _ => reads
  | .done _ => []

/-- What `query_page` returns, once it does. -/
def reply (limit : ℕ) : ReadBuckets → Option (Except DurableTableError QueryPage)
  | .done r => some (r.map (cutPage limit))
  | _ => none

/-- The records of the reads that have ended, in that order. -/
def joined (ended : List Ended) : List Record := ended.flatMap fun p => p.2.toOption.getD []

variable {Returns : BucketId → Except DurableTableError (List Record) → Prop}
  {buckets : List BucketId} {ended : List Ended} {state state' : ReadBuckets}

/-! ### What holds of a call -/

/-- The reads that have ended returned records. -/
def Succeeded (Returns : BucketId → Except DurableTableError (List Record) → Prop)
    (ended : List Ended) : Prop :=
  ∀ p ∈ ended, Returns p.1 p.2 ∧ ∃ records, p.2 = .ok records

/-- Every bucket has been read, is being read, or waits. -/
inductive Accounted (Returns : BucketId → Except DurableTableError (List Record) → Prop)
    (buckets : List BucketId) : List Ended → ReadBuckets → Prop where
  | alone {b} (hb : buckets = [b]) : Accounted Returns buckets [] (.alone b)
  | joining {ended : List Ended} {waiting reads : List BucketId}
      (hall : (ended.map Prod.fst ++ reads ++ waiting).Perm buckets)
      (hspawned : reads = [] → waiting = []) (hfour : reads.length ≤ maxParallelBucketReads)
      (hok : Succeeded Returns ended) :
      Accounted Returns buckets ended (.joining waiting reads (joined ended))
  | done {ended : List Ended} (hall : (ended.map Prod.fst).Perm buckets)
      (hok : Succeeded Returns ended) :
      Accounted Returns buckets ended (.done (.ok (joined ended)))
  | failed {ended : List Ended} {b e} (hpart : (ended.map Prod.fst ++ [b]).Subperm buckets)
      (hok : Succeeded Returns ended) :
      Accounted Returns buckets (ended ++ [(b, .error e)]) (.done (.error e))

theorem Succeeded.append {b : BucketId} {records : List Record} (h : Succeeded Returns ended)
    (hr : Returns b (.ok records)) : Succeeded Returns (ended ++ [(b, .ok records)]) :=
  List.forall_mem_append.mpr ⟨h, List.forall_mem_singleton.mpr ⟨hr, records, rfl⟩⟩

theorem joined_append (b : BucketId) (records : List Record) :
    joined (ended ++ [(b, .ok records)]) = joined ended ++ records := by
  simp [joined, Except.toOption]

/-- A call begins with four buckets at most. -/
theorem accounted_start (buckets : List BucketId) :
    Accounted Returns buckets [] (start buckets) := by
  match buckets with
  | [] => exact .done (.refl _) (List.forall_mem_nil _)
  | [first] => exact .alone rfl
  | first :: second :: buckets =>
      refine .joining ?_ (fun h => by cases h) ?_ (List.forall_mem_nil _)
      · simp
      · simp only [maxParallelBucketReads, List.length_cons, List.length_take]
        omega

/-- **One step**: the read that ends moves to those that have ended, and the next bucket to the
reads. -/
theorem Accounted.step {l : Option Ended} (h : Accounted Returns buckets ended state)
    (hs : Step Returns state l state') : Accounted Returns buckets (ended ++ l.toList) state' := by
  cases hs with
  | @alone b r hr =>
      cases h with
      | alone hb =>
          subst hb
          cases r with
          | ok records =>
              have hok : Succeeded Returns [(b, .ok records)] :=
                List.forall_mem_singleton.mpr ⟨hr, records, rfl⟩
              have hdone : Accounted Returns [b] [(b, .ok records)] (.done (.ok (joined _))) :=
                .done (.refl _) hok
              simpa [joined, Except.toOption] using hdone
          | error e =>
              have hok : Succeeded Returns [] := List.forall_mem_nil _
              exact .failed (.refl _) hok
  | @join waiting l l' result b records hr =>
      cases h with
      | joining hall hspawned hfour hok =>
          rw [Option.toList_some, ← joined_append b records]
          refine .joining (List.Perm.trans ?_ hall) (fun hnil => ?_) ?_ (hok.append hr)
          · have hsplit : waiting.take 1 ++ waiting.tail = waiting := by
              cases waiting <;> rfl
            simp only [List.map_append, List.map_cons, List.map_nil, List.append_assoc, hsplit,
              List.cons_append, List.nil_append]
            exact List.Perm.append_left _ List.perm_middle.symm
          · cases waiting with
            | nil => rfl
            | cons b' waiting => simp at hnil
          · simp only [List.length_append, List.length_cons, List.length_take] at hfour ⊢
            omega
  | @fail waiting l l' result b e hr =>
      cases h with
      | joining hall hspawned hfour hok =>
          refine .failed (List.Subperm.trans ?_ hall.subperm) hok
          rw [List.append_assoc]
          refine List.Subperm.append (.refl _)
            (List.Subperm.trans ?_ (List.sublist_append_left ..).subperm)
          exact (List.singleton_sublist.mpr
            (List.mem_append_right _ (List.mem_cons_self ..))).subperm
  | @finish waiting result =>
      cases h with
      | joining hall hspawned hfour hok =>
          obtain rfl := hspawned rfl
          rw [Option.toList_none, List.append_nil]
          refine .done ?_ hok
          simpa using hall

/-- **Along a run** of the reads. -/
theorem accounted_of_run {trace : List (Option Ended)}
    (h : Run (Step Returns) (start buckets) trace state) :
    Accounted Returns buckets trace.reduceOption state := by
  refine Run.rec_last (P := fun trace state => Accounted Returns buckets trace.reduceOption state)
    (accounted_start buckets) (fun trace state l state' _ ih hs => ?_) h
  have hstep := ih.step hs
  rw [List.reduceOption_append]
  cases l with
  | none => exact hstep
  | some p => exact hstep

/-- A call that has not returned can go on. -/
theorem Accounted.progress (h : Accounted Returns buckets ended state)
    (hreturns : ∀ b, ∃ records, Returns b (.ok records)) :
    (∃ r, state = .done r) ∨ ∃ l state', Step Returns state l state' := by
  cases h with
  | @alone b _ =>
      obtain ⟨records, hr⟩ := hreturns b
      exact .inr ⟨_, _, .alone hr⟩
  | @joining _ waiting reads =>
      cases reads with
      | nil => exact .inr ⟨_, _, .finish⟩
      | cons b reads =>
          obtain ⟨records, hr⟩ := hreturns b
          exact .inr ⟨_, _, .join (l := []) hr⟩
  | done => exact .inl ⟨_, rfl⟩
  | failed => exact .inl ⟨_, rfl⟩

/-- What has ended and what is in flight are different buckets of the call. -/
theorem Accounted.subperm (h : Accounted Returns buckets ended state) :
    (ended.map Prod.fst ++ state.inFlight).Subperm buckets := by
  cases h with
  | alone hb => exact hb ▸ .refl _
  | joining hall => exact (List.sublist_append_left ..).subperm.trans hall.subperm
  | done hall => simpa [inFlight] using hall.subperm
  | failed hpart => simpa [inFlight] using hpart

/-- Four buckets at most are read at once. -/
theorem Accounted.length_inFlight_le (h : Accounted Returns buckets ended state) :
    state.inFlight.length ≤ maxParallelBucketReads := by
  cases h with
  | alone => simp [inFlight, maxParallelBucketReads]
  | joining _ _ hfour => exact hfour
  | done | failed => exact Nat.zero_le _

/-- A call that returned records has read every bucket. -/
theorem Accounted.of_ok {result : List Record}
    (h : Accounted Returns buckets ended (.done (.ok result))) :
    (ended.map Prod.fst).Perm buckets ∧ Succeeded Returns ended ∧ result = joined ended := by
  cases h with
  | done hall hok => exact ⟨hall, hok, rfl⟩

/-- A read that failed has ended the call, and nothing else fails it. -/
theorem Accounted.error_iff (h : Accounted Returns buckets ended state) :
    (∃ b e, (b, .error e) ∈ ended) ↔ ∃ e, state = .done (.error e) := by
  have hnone : Succeeded Returns ended → ¬ ∃ b e, (b, .error e) ∈ ended := by
    rintro hok ⟨b, e, hmem⟩
    obtain ⟨records, hr⟩ := (hok _ hmem).2
    cases hr
  cases h with
  | alone => exact iff_of_false (by simp) (by simp)
  | joining _ _ _ hok => exact iff_of_false (hnone hok) (by simp)
  | done _ hok => exact iff_of_false (hnone hok) (by simp)
  | @failed ended b e =>
      refine iff_of_true ⟨b, e, ?_⟩ ⟨e, rfl⟩
      exact List.mem_append_right _ (List.mem_singleton_self _)

/-- The reads of a client that pages through a query, without their tasks. -/
def ofScan (waiting : List BucketId) (reads : List BucketRead) (result : List Record) :
    ReadBuckets := .joining waiting (reads.map BucketRead.bucket) result

/-- **A client that pages reads its buckets this way.**  One of its steps is a step of
`read_buckets`, or happens within a read. -/
theorem of_scan_step {S : Services} {table : DurableTable} {query : Query} {s s' : S.State}
    {pages : List (List Record)} {after : Option Cursor} {waiting : List BucketId}
    {reads : List BucketRead} {result : List Record} {scan : Scan}
    (h : Scan.Step S table query s ⟨pages, after, .reading waiting reads result⟩ s' scan) :
    (∃ waiting' reads' result', scan = ⟨pages, after, .reading waiting' reads' result'⟩ ∧
      (ofScan waiting' reads' result' = ofScan waiting reads result ∨
        ∃ l, Step (fun _ _ => True) (ofScan waiting reads result) l
          (ofScan waiting' reads' result'))) ∨
    ∃ l r, Step (fun _ _ => True) (ofScan waiting reads result) l (.done r) ∧
      scan = match r with
        | .ok result => Scan.turn ⟨pages, after, .reading waiting reads result⟩
            (cutPage query.limit result)
        | .error e => ⟨pages, after, .failed e⟩ := by
  cases h with
  | serve hs => exact .inl ⟨_, _, _, rfl, .inl (by simp [ofScan])⟩
  | @join _ _ _ l l' _ b records =>
      have hjoin : Step (fun _ _ => True)
          (ofScan waiting (l ++ ⟨b, .ret (.ok records)⟩ :: l') result)
          (some (b, .ok records))
          (.joining waiting.tail (l.map BucketRead.bucket ++ l'.map BucketRead.bucket ++
            waiting.take 1) (result ++ records)) := by
        rw [ofScan, List.map_append, List.map_cons]
        exact .join trivial
      refine .inl ⟨_, _, _, rfl, .inr ⟨some (b, .ok records), ?_⟩⟩
      simpa [ofScan, Scan.spawn, Function.comp_def] using hjoin
  | @fail _ _ _ l l' _ b e =>
      refine .inr ⟨some (b, .error e), .error e, ?_, rfl⟩
      rw [ofScan, List.map_append, List.map_cons]
      exact .fail trivial
  | finish => exact .inr ⟨none, .ok result, .finish, rfl⟩

end ReadBuckets

/-! ### The plain query -/

/-- The records of a partition, by bucket.  Each lies in the bounds of its bucket, and the bucket is
one of the partition. -/
structure PartitionRecords (definition : TableDefinition) (partitionKey : PartitionKey) where
  buckets : List BucketId
  nodup : buckets.Nodup
  derived : ∀ b ∈ buckets, ∃ t, definition.bucketForEventTime partitionKey t = some b
  records : BucketId → List Record
  inside : ∀ b, ∀ r ∈ records b, b ∈ buckets ∧ b.contains r.eventTime

/-- All records of the partition. -/
def PartitionRecords.all {definition : TableDefinition} {partitionKey : PartitionKey}
    (c : PartitionRecords definition partitionKey) : List Record := c.buckets.flatMap c.records

/-- The query asks for the record. -/
def Query.Matches (query : Query) (r : Record) : Prop :=
  query.range.contains r.eventTime ∧ isAfter query.after r

instance (query : Query) : DecidablePred query.Matches := fun r => by
  unfold Query.Matches; infer_instance

/-- The page of a plain query: sort all records that match, and take the first. -/
def plainPage (query : Query) (records : List Record) : QueryPage :=
  let sorted := sortByKey (records.filter query.Matches)
  ⟨sorted.take query.limit,
    if query.limit < sorted.length then (sorted.take query.limit).getLast?.map Record.cursor
    else none⟩

section Page

variable {definition : TableDefinition} {query : Query} {buckets order : List BucketId}

/-- The records of a bucket that match. -/
def PartitionRecords.matching (c : PartitionRecords definition query.partitionKey) (b : BucketId) :
    List Record := (c.records b).filter query.Matches

variable {c : PartitionRecords definition query.partitionKey}

theorem selectArchived_eq (records : List Record) :
    selectArchived query.range query.after query.pageCapacity records =
      (Paging.sortOn Record.clusteringKey (records.filter query.Matches)).take
        query.pageCapacity := by
  have hfilter : ((records.filter fun r => query.range.contains r.eventTime).filter fun r =>
      isAfter query.after r) = records.filter query.Matches := by
    rw [List.filter_filter]
    refine List.filter_congr fun r _ => ?_
    simp [Query.Matches, and_comm]
  unfold selectArchived
  rw [hfilter]
  rfl

theorem all_filter : c.all.filter query.Matches = c.buckets.flatMap c.matching :=
  List.filter_flatMap ..

theorem mem_matching_iff {b : BucketId} {r : Record} :
    r ∈ c.matching b ↔ r ∈ c.records b ∧ query.Matches r := by
  simp [PartitionRecords.matching]

/-- The bucket of a record is that of its event time. -/
theorem bucketForEventTime_of_matching {b : BucketId} {r : Record} (h : r ∈ c.matching b) :
    definition.bucketForEventTime query.partitionKey r.eventTime = some b := by
  obtain ⟨hb, hin⟩ := c.inside b r (mem_matching_iff.mp h).1
  obtain ⟨t, ht⟩ := c.derived b hb
  exact BucketId.forEventTimeWithStrategy_of_contains ht hin

/-- Records of two buckets have different keys. -/
theorem matching_separate : Paging.Separate Record.clusteringKey c.matching := by
  intro b b' x y hx hy hkey
  have hb := bucketForEventTime_of_matching hx
  have htime : x.eventTime = y.eventTime := congrArg (fun k => (ofLex k).1) hkey
  rw [htime, bucketForEventTime_of_matching hy] at hb
  exact (Option.some.inj hb).symm

/-- Routed buckets are in the order of the keys of their records. -/
theorem matching_ordered
    (hb : definition.bucketsForRange query.partitionKey query.range = some buckets) :
    buckets.Pairwise fun b b' => ∀ x ∈ c.matching b, ∀ y ∈ c.matching b',
      x.clusteringKey ≤ y.clusteringKey := by
  refine (TableDefinition.bucketsForRange_pairwise hb).imp fun {b b'} hle x hx y hy => ?_
  obtain ⟨-, hx⟩ := c.inside b x (mem_matching_iff.mp hx).1
  obtain ⟨-, hy⟩ := c.inside b' y (mem_matching_iff.mp hy).1
  have hlt : x.eventTime < y.eventTime := (hx.2.trans_le hle).trans_le hy.1
  exact (Prod.Lex.toLex_lt_toLex.mpr (.inl hlt)).le

/-- A bucket with a record that matches is routed to. -/
theorem mem_buckets_iff_of_matching
    (hb : definition.bucketsForRange query.partitionKey query.range = some buckets) {b : BucketId}
    (h : c.matching b ≠ []) : b ∈ c.buckets ↔ b ∈ buckets := by
  obtain ⟨r, hr⟩ := List.exists_mem_of_ne_nil _ h
  obtain ⟨hrecord, hmatches⟩ := mem_matching_iff.mp hr
  obtain ⟨hmem, hin⟩ := c.inside b r hrecord
  refine iff_of_true hmem ?_
  exact (TableDefinition.mem_bucketsForRange_iff hb (bucketForEventTime_of_matching hr)).mpr
    ⟨r.eventTime, hin, hmatches.1⟩

theorem nodup_buckets
    (hb : definition.bucketsForRange query.partitionKey query.range = some buckets) :
    buckets.Nodup :=
  (TableDefinition.bucketsForRange_sorted hb).imp fun hlt he =>
    absurd (congrArg BucketId.start he) hlt.ne

/-- **The page is that of the plain query**, in whichever order the buckets were read. -/
theorem page_eq (hb : definition.bucketsForRange query.partitionKey query.range = some buckets)
    (hlimit : query.limit ≤ usizeMax)
    (hfits : query.limit < usizeMax ∨ (c.all.filter query.Matches).length ≤ usizeMax)
    (horder : order.Perm buckets) :
    cutPage query.limit (order.flatMap fun b =>
        selectArchived query.range query.after query.pageCapacity (c.records b)) =
      plainPage query c.all := by
  have hsame := fun b => @mem_buckets_iff_of_matching _ _ _ c hb b
  have hlength : (buckets.flatMap c.matching).length = (c.all.filter query.Matches).length := by
    rw [all_filter, ← (Paging.sortOn_perm Record.clusteringKey _).length_eq,
      ← Paging.sortOn_flatMap_congr matching_separate c.nodup (nodup_buckets hb) hsame,
      (Paging.sortOn_perm Record.clusteringKey _).length_eq]
  have hcapacity : query.limit < query.pageCapacity ∨
      query.limit ≤ query.pageCapacity ∧ (buckets.flatMap c.matching).length ≤ query.limit := by
    unfold Query.pageCapacity
    omega
  have hcut := Paging.cut_truncated matching_separate (nodup_buckets hb) c.nodup horder hsame
    (matching_ordered hb) hcapacity
  have hplain : plainPage query c.all = cutPage query.limit (c.buckets.flatMap c.matching) := by
    rw [← all_filter]
    rfl
  rw [hplain, Scan.cutPage_eq, Scan.cutPage_eq, ← hcut]
  simp only [selectArchived_eq]
  rfl

end Page

/-! ### Whole calls -/

namespace ReadBuckets

variable {definition : TableDefinition} {query : Query}
  {c : PartitionRecords definition query.partitionKey} {buckets : List BucketId}

/-- A read of a bucket returns its first records that match, or fails. -/
def Reads (c : PartitionRecords definition query.partitionKey) (b : BucketId)
    (r : Except DurableTableError (List Record)) : Prop :=
  r = .ok (selectArchived query.range query.after query.pageCapacity (c.records b)) ∨
    ∃ e, r = .error e

/-- What the reads that have ended returned, if none has failed. -/
theorem joined_eq {ended : List Ended} (h : Succeeded (Reads c) ended) :
    joined ended = (ended.map Prod.fst).flatMap fun b =>
      selectArchived query.range query.after query.pageCapacity (c.records b) := by
  rw [joined, List.flatMap_map]
  refine List.flatMap_congr fun p hp => ?_
  obtain ⟨hr | ⟨e, hr⟩, records, hok⟩ := h p hp
  · rw [hr]
    rfl
  · cases hr.symm.trans hok

/-- A run has one step for each read that has ended, and one more at its end. -/
theorem length_le_of_run {Returns : BucketId → Except DurableTableError (List Record) → Prop}
    {trace : List (Option Ended)} {s state : ReadBuckets} (h : Run (Step Returns) s trace state) :
    trace.length ≤ trace.reduceOption.length + 1 := by
  have hlength : ((∃ r, state = .done r) ∨ trace.length = trace.reduceOption.length) ∧
      trace.length ≤ trace.reduceOption.length + 1 := by
    refine Run.rec_last (P := fun trace state =>
      ((∃ r, state = .done r) ∨ trace.length = trace.reduceOption.length) ∧
        trace.length ≤ trace.reduceOption.length + 1) ⟨.inr rfl, Nat.zero_le _⟩ ?_ h
    rintro trace state l state' - ⟨ih, -⟩ hs
    have heq : trace.length = trace.reduceOption.length := by
      refine ih.resolve_left ?_
      rintro ⟨r, rfl⟩
      cases hs
    rw [List.reduceOption_append, List.length_append, List.length_append]
    cases hs with
    | alone | fail => exact ⟨.inl ⟨_, rfl⟩, by simp [heq]⟩
    | join => exact ⟨.inr (by simp [heq]), by simp [heq]⟩
    | finish => exact ⟨.inl ⟨_, rfl⟩, by simp [heq]⟩
  exact hlength.2

/-- What holds of a call of `query_page` in every state. -/
structure PlainRead (c : PartitionRecords definition query.partitionKey) (buckets : List BucketId)
    (trace : List (Option Ended)) (state : ReadBuckets) : Prop where
  /-- No bucket is read twice. -/
  once : (trace.reduceOption.map Prod.fst ++ state.inFlight).Subperm buckets
  four : state.inFlight.length ≤ 4
  /-- A page is that of the plain query, and every bucket was read for it. -/
  page : ∀ page, state.reply query.limit = some (.ok page) →
    page = plainPage query c.all ∧ (trace.reduceOption.map Prod.fst).Perm buckets
  /-- The call fails if a read does. -/
  fails : (∃ b e, (b, .error e) ∈ trace.reduceOption) ↔
    ∃ e, state.reply query.limit = some (.error e)
  /-- The call goes on until it returns. -/
  returns : trace.length ≤ buckets.length + 1 ∧
    (state.reply query.limit = none → ∃ l state', Step (Reads c) state l state')

theorem plainRead_of_run
    (hb : definition.bucketsForRange query.partitionKey query.range = some buckets)
    (hlimit : query.limit ≤ usizeMax)
    (hfits : query.limit < usizeMax ∨ (c.all.filter query.Matches).length ≤ usizeMax)
    {trace : List (Option Ended)} {state : ReadBuckets}
    (h : Run (Step (Reads c)) (start buckets) trace state) : PlainRead c buckets trace state := by
  have hsound := accounted_of_run h
  refine ⟨hsound.subperm, hsound.length_inFlight_le, fun page hpage => ?_, ?_, ?_, fun hnone => ?_⟩
  · cases state with
    | alone | joining => cases hpage
    | done r =>
        cases r with
        | error e => cases hpage
        | ok result =>
            cases hpage
            obtain ⟨hall, hok, rfl⟩ := hsound.of_ok
            rw [joined_eq hok]
            exact ⟨page_eq hb hlimit hfits hall, hall⟩
  · rw [hsound.error_iff]
    cases state with
    | alone | joining => simp [reply]
    | done r => cases r <;> simp [reply, Except.map]
  · have hlength := hsound.subperm.length_le
    rw [List.length_append, List.length_map] at hlength
    have hsteps := length_le_of_run h
    omega
  · obtain ⟨r, rfl⟩ | hstep := hsound.progress fun b => ⟨_, .inl rfl⟩
    · cases hnone
    · exact hstep

end ReadBuckets

/-- **The parallel read is the plain query.**  A call of `query_page` over a range that is not
empty, with a limit that is not zero, reads every routed bucket once, four at a time at most, and
returns the page of the plain query, or the failure of a read, exactly when the range ends at or
before the horizon; it panics otherwise. -/
theorem page_read_iff {table : DurableTable} {query : Query}
    (c : PartitionRecords table.definition query.partitionKey)
    (hr : query.range.start < query.range.endAt) (hl : 0 < query.limit)
    (hlimit : query.limit ≤ usizeMax)
    (hfits : query.limit < usizeMax ∨ (c.all.filter query.Matches).length ≤ usizeMax) :
    (∃ buckets, table.openPage query = some (.ok (.inr buckets)) ∧ buckets.Nodup ∧
      ∀ trace state, Run (ReadBuckets.Step (ReadBuckets.Reads c)) (.start buckets) trace state →
        ReadBuckets.PlainRead c buckets trace state) ↔
    query.range.endAt ≤ table.definition.horizon := by
  have hopen : table.openPage query =
      (table.definition.bucketsForRange query.partitionKey query.range).map fun bs =>
        .ok (.inr bs) := Scan.openPage_eq hr hl query.after
  rw [← TableDefinition.bucketsForRange_isSome_iff hr, hopen]
  constructor
  · rintro ⟨buckets, hsome, -⟩
    obtain ⟨bs, hbs, -⟩ := Option.map_eq_some_iff.mp hsome
    exact Option.isSome_of_eq_some hbs
  · intro hsome
    obtain ⟨buckets, hb⟩ := Option.isSome_iff_exists.mp hsome
    refine ⟨buckets, by rw [hb]; rfl, nodup_buckets hb, fun trace state h => ?_⟩
    exact ReadBuckets.plainRead_of_run hb hlimit hfits h

namespace Sample

/-- The records of the partition from 2024 on, as many as there are. -/
def wholeQuery (endAt : DateTime) : Query where
  partitionKey := [7]
  range := ⟨newYear 2024 year2024, endAt⟩
  after := none
  limit := usizeMax

/-- Two records with one key in the bucket of 2024, and one in that of 2025. -/
def years : PartitionRecords table.definition [7] where
  buckets := [bucket, nextBucket]
  nodup := by decide
  derived := List.forall_mem_cons.mpr ⟨⟨newYear 2024 year2024, rfl⟩,
    List.forall_mem_singleton.mpr ⟨newYear 2025 year2025, rfl⟩⟩
  records b :=
    if b = bucket then [record, { record with value := [43] }]
    else if b = nextBucket then [nextRecord] else []
  inside b r hr := by
    by_cases hb : b = bucket
    · subst hb
      rw [if_pos rfl] at hr
      refine ⟨List.mem_cons_self .., ?_⟩
      rcases List.mem_pair.mp hr with rfl | rfl <;> decide
    by_cases hb' : b = nextBucket
    · subst hb'
      rw [if_neg hb, if_pos rfl, List.mem_singleton] at hr
      subst hr
      exact ⟨List.mem_cons_of_mem _ (List.mem_singleton_self _), by decide⟩
    · rw [if_neg hb, if_neg hb'] at hr
      cases hr

end Sample

/-- Two years, both of which have records, read in parallel and without a limit. -/
theorem page_read_iff_of_years :
    ∃ buckets, Sample.table.openPage (Sample.wholeQuery Sample.nextBucket.endAt) =
        some (.ok (.inr buckets)) ∧ Sample.bucket ∈ buckets ∧ Sample.nextBucket ∈ buckets ∧
      ∀ trace state, Run (ReadBuckets.Step (@ReadBuckets.Reads _
          (Sample.wholeQuery Sample.nextBucket.endAt) Sample.years)) (.start buckets) trace state →
        @ReadBuckets.PlainRead _ (Sample.wholeQuery Sample.nextBucket.endAt) Sample.years buckets
          trace state := by
  have hr : (Sample.wholeQuery Sample.nextBucket.endAt).range.start <
      (Sample.wholeQuery Sample.nextBucket.endAt).range.endAt := by decide
  obtain ⟨buckets, hopen, -, hreads⟩ := (@page_read_iff Sample.table
    (Sample.wholeQuery Sample.nextBucket.endAt) Sample.years hr (by decide) le_rfl
    (.inr ((List.length_filter_le _ _).trans (by decide)))).mpr (by decide)
  have hrouted : Sample.table.openPage (Sample.wholeQuery Sample.nextBucket.endAt) = _ :=
    Scan.openPage_eq hr (by decide) none
  obtain ⟨_, hbs, heq⟩ := Option.map_eq_some_iff.mp (hrouted.symm.trans hopen)
  cases heq
  have hbucket : Sample.table.definition.bucketForEventTime [7] Sample.bucket.start =
      some Sample.bucket := rfl
  have hnext : Sample.table.definition.bucketForEventTime [7] Sample.nextBucket.start =
      some Sample.nextBucket := rfl
  exact ⟨buckets, hopen,
    (TableDefinition.mem_bucketsForRange_iff hbs hbucket).mpr
      ⟨Sample.bucket.start, by decide, by decide⟩,
    (TableDefinition.mem_bucketsForRange_iff hbs hnext).mpr
      ⟨Sample.nextBucket.start, by decide, by decide⟩, hreads⟩

/-- **A range that ends in the last year panics**, instead of returning a page. -/
theorem last_day_is_not_routed :
    ∃ query : Query, query.range.start < query.range.endAt ∧ 0 < query.limit ∧
      query.limit ≤ usizeMax ∧ Sample.table.openPage query = none := by
  let lastDay : DateTime :=
    DateTime.midnight ⟨262142, 12, 31, by decide, by decide, by decide, by decide⟩ (by decide)
  have hr : (Sample.wholeQuery lastDay).range.start < (Sample.wholeQuery lastDay).range.endAt := by
    decide
  have hnone : Sample.table.definition.bucketsForRange (Sample.wholeQuery lastDay).partitionKey
      (Sample.wholeQuery lastDay).range = none := by
    rw [← Option.not_isSome_iff_eq_none, TableDefinition.bucketsForRange_isSome_iff hr]
    decide
  have hopen : Sample.table.openPage (Sample.wholeQuery lastDay) = _ :=
    Scan.openPage_eq hr (by decide) none
  refine ⟨Sample.wholeQuery lastDay, hr, by decide, le_rfl, ?_⟩
  rw [hopen, hnone]
  rfl

end Pulpitum
