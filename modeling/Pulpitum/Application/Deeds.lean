import Mathlib
import Pulpitum.Application.Pagination

/-!
# Application — Deeds

A client that pages through a query, as a function of what it does next and of the stores' answers.

* `Scan.exists_deed`: every step of the client is a deed.
* `Scan.act_congr`: **a deed depends on the answers to reads of the query's own buckets only.**
* `Scan.Within.act`: a client that reads its own buckets goes on to do so.
-/

namespace Pulpitum

/-- The operation that a read awaits is answered. -/
def BucketRead.serve (answer : (q : Request) → q.Reply) (read : BucketRead) : BucketRead :=
  match read.task with
  | .ask (.call q) k => ⟨read.bucket, k (answer q)⟩
  | _ => read

namespace Scan

/-- What a client does next. -/
inductive Deed where
  /-- Call `query_page`. -/
  | call
  /-- Let the operation of the read at a position take effect. -/
  | serve (n : ℕ)
  /-- Join the read at a position. -/
  | join (n : ℕ)
  /-- Return the page. -/
  | finish
deriving DecidableEq

/-- The client after a deed.  What it cannot do changes nothing. -/
def act (table : DurableTable) (query : Query) (answer : (q : Request) → q.Reply) :
    Deed → Scan → Scan
  | .call, ⟨pages, after, .between⟩ => Scan.call table query ⟨pages, after, .between⟩
  | .serve n, ⟨pages, after, .reading waiting reads result⟩ =>
      match reads[n]? with
      | some read => ⟨pages, after, .reading waiting (reads.set n (read.serve answer)) result⟩
      | none => ⟨pages, after, .reading waiting reads result⟩
  | .join n, ⟨pages, after, .reading waiting reads result⟩ =>
      match reads[n]? with
      | some ⟨_, .ret (.ok records)⟩ =>
          ⟨pages, after, .reading waiting.tail
            (reads.eraseIdx n ++ (waiting.take 1).map (spawn query after)) (result ++ records)⟩
      | some ⟨_, .ret (.error e)⟩ => ⟨pages, after, .failed e⟩
      | _ => ⟨pages, after, .reading waiting reads result⟩
  | .finish, ⟨pages, after, .reading [] [] result⟩ =>
      turn ⟨pages, after, .reading [] [] result⟩ (cutPage query.limit result)
  | _, scan => scan

/-! ### Reads of one's own buckets -/

section Within

variable (Mine : BucketId → Prop) (Key : BucketId → String → Prop)

/-- What a read of a bucket in `Mine` asks: the bucket, and then an object of the bucket, in
`Key`. -/
def Asks : Request → Prop
  | .store (.readRange b ..) => Mine b
  | .archive (.getBucket b key) => Mine b ∧ Key b key
  | _ => False

/-- Where a read of a bucket in `Mine` can be. -/
inductive Reads (query : Query) (after : Option Cursor) : BucketRead → Prop where
  | asked {b : BucketId} (hb : Mine b) : Reads query after (spawn query after b)
  | located {b : BucketId} {key : String} (hb : Mine b) (hk : Key b key) :
      Reads query after ⟨b, readArchived b query.range after query.pageCapacity key⟩
  | done {b : BucketId} {r : Except DurableTableError (List Record)} :
      Reads query after ⟨b, .ret r⟩

/-- The client reads buckets in `Mine`. -/
def Within (query : Query) (scan : Scan) : Prop :=
  ∀ waiting reads result, scan.stage = .reading waiting reads result →
    (∀ b ∈ waiting, Mine b) ∧ ∀ read ∈ reads, Reads Mine Key query scan.after read

/-- The answers locate archived buckets by keys in `Key`. -/
def Locates (answer : (q : Request) → q.Reply) : Prop :=
  ∀ b range after limit key, Mine b →
    answer (.store (.readRange b range after limit)) = Except.ok (.archive key) → Key b key

end Within

variable {Mine : BucketId → Prop} {Key : BucketId → String → Prop} {table : DurableTable}
  {query : Query} {answer answer' : (q : Request) → q.Reply} {after : Option Cursor}
  {read : BucketRead} {scan : Scan}

theorem Reads.serve_congr (h : Reads Mine Key query after read)
    (ha : ∀ q, Asks Mine Key q → answer q = answer' q) :
    read.serve answer = read.serve answer' := by
  cases h with
  | @asked b hb =>
      simp only [BucketRead.serve, spawn, readBucket_eq]
      rw [ha (.store (.readRange b query.range after query.pageCapacity)) hb]
  | @located b key hb hk =>
      simp only [BucketRead.serve, readArchived_eq]
      rw [ha (.archive (.getBucket b key)) ⟨hb, hk⟩]
  | done => rfl

theorem Reads.serve (h : Reads Mine Key query after read) (ha : Locates Mine Key answer) :
    Reads Mine Key query after (read.serve answer) := by
  cases h with
  | @asked b hb =>
      simp only [BucketRead.serve, spawn, readBucket_eq]
      generalize hr : answer (.store (.readRange b query.range after query.pageCapacity)) = r
      rcases r with e | records | key
      · exact .done
      · exact .done
      · exact .located hb (ha _ _ _ _ _ hb hr)
  | @located b key hb hk =>
      simp only [BucketRead.serve, readArchived_eq]
      cases answer (.archive (.getBucket b key)) with
      | error e => exact .done
      | ok records => exact .done
  | done => exact .done

/-- **A deed depends on the answers to reads of one's own buckets only.** -/
theorem act_congr (hw : Within Mine Key query scan)
    (ha : ∀ q, Asks Mine Key q → answer q = answer' q) (d : Deed) :
    act table query answer d scan = act table query answer' d scan := by
  obtain ⟨pages, after, stage⟩ := scan
  cases d with
  | serve n =>
      cases stage with
      | reading waiting reads result =>
          cases hread : reads[n]? with
          | none => simp only [act, hread]
          | some read =>
              have hserve : read.serve answer = read.serve answer' :=
                ((hw _ _ _ rfl).2 read (List.mem_of_getElem? hread)).serve_congr ha
              simp only [act, hread, hserve]
      | between | finished | failed | panicked => rfl
  | call | join => cases stage <;> rfl
  | finish =>
      cases stage with
      | reading waiting reads result => cases waiting <;> cases reads <;> rfl
      | between | finished | failed | panicked => rfl

theorem Within.reading {pages : List (List Record)} {waiting : List BucketId}
    {reads : List BucketRead} {result : List Record} (hwaiting : ∀ b ∈ waiting, Mine b)
    (hreads : ∀ read ∈ reads, Reads Mine Key query after read) :
    Within Mine Key query ⟨pages, after, .reading waiting reads result⟩ := by
  rintro _ _ _ ⟨⟩
  exact ⟨hwaiting, hreads⟩

theorem Within.turn (page : QueryPage) : Within Mine Key query (scan.turn page) := by
  intro waiting reads result h
  unfold Scan.turn at h
  dsimp only at h
  split at h <;> cases h

/-- A call opens the buckets that the range is routed to. -/
theorem Within.call (h : ∀ bs, table.definition.bucketsForRange query.partitionKey query.range =
    some bs → ∀ b ∈ bs, Mine b) : Within Mine Key query (Scan.call table query scan) := by
  unfold Scan.call
  split
  · exact fun _ _ _ h => nomatch h
  · exact fun _ _ _ h => nomatch h
  · exact Within.turn _
  · rename_i buckets hopen
    have hroute : table.definition.bucketsForRange query.partitionKey query.range =
        some buckets := by
      unfold DurableTable.openPage at hopen
      split at hopen
      · cases hopen
      · split at hopen
        · cases hopen
        · obtain ⟨bs, hbs, heq⟩ := Option.bind_eq_some_iff.mp hopen
          cases heq
          exact hbs
    refine Within.reading (fun b hb => h _ hroute b (List.mem_of_mem_drop hb)) fun read hread => ?_
    obtain ⟨b, hb, rfl⟩ := List.mem_map.mp hread
    exact .asked (h _ hroute b (List.mem_of_mem_take hb))

/-- **A client that reads its own buckets goes on to do so.** -/
theorem Within.act (hw : Within Mine Key query scan) (ha : Locates Mine Key answer)
    (hb : ∀ bs, table.definition.bucketsForRange query.partitionKey query.range = some bs →
      ∀ b ∈ bs, Mine b) (d : Deed) :
    Within Mine Key query (Scan.act table query answer d scan) := by
  unfold Scan.act
  split
  · exact Within.call hb
  · obtain ⟨hwaiting, hreads⟩ := hw _ _ _ rfl
    split
    · rename_i read hread
      refine Within.reading hwaiting fun read' hread' => ?_
      rcases List.mem_or_eq_of_mem_set hread' with hread' | rfl
      · exact hreads read' hread'
      · exact (hreads read (List.mem_of_getElem? hread)).serve ha
    · exact hw
  · obtain ⟨hwaiting, hreads⟩ := hw _ _ _ rfl
    split
    · refine Within.reading (fun b hb => hwaiting b (List.mem_of_mem_tail hb)) fun read hread => ?_
      rcases List.mem_append.mp hread with hread | hread
      · exact hreads read (List.mem_of_mem_eraseIdx hread)
      · obtain ⟨b, hb, rfl⟩ := List.mem_map.mp hread
        exact .asked (hwaiting b (List.mem_of_mem_take hb))
    · exact fun _ _ _ h => nomatch h
    · exact hw
  · exact Within.turn _
  · exact hw

/-- **Every step of a client is a deed**, if its reads leave the stores alone and are answered as
`answer` says. -/
theorem exists_deed {S : Services} {s s' : S.State} {scan' : Scan}
    (hw : Within Mine Key query scan)
    (ha : ∀ (q : Request) (r : q.Reply), Asks Mine Key q → S.serve q s r s' → s' = s ∧ answer q = r)
    (h : Step S table query s scan s' scan') :
    s' = s ∧ ∃ d, scan' = act table query answer d scan := by
  cases h with
  | call => exact ⟨rfl, .call, rfl⟩
  | @serve _ pages after waiting l l' result b q k r hs =>
      have hread : Reads Mine Key query after ⟨b, .ask (.call q) k⟩ :=
        (hw _ _ _ rfl).2 _ (List.mem_append_right _ (List.mem_cons_self ..))
      have hq : Asks Mine Key q := by
        generalize heq : (⟨b, .ask (.call q) k⟩ : BucketRead) = read at hread
        cases hread with
        | asked hb =>
            rw [spawn, readBucket_eq] at heq
            cases heq
            exact hb
        | located hb hk =>
            rw [readArchived_eq] at heq
            cases heq
            exact ⟨hb, hk⟩
        | done => cases heq
      obtain ⟨hsame, rfl⟩ := ha q r hq hs
      refine ⟨hsame, .serve l.length, ?_⟩
      simp [act, BucketRead.serve]
  -- a read is named by its position
  | @join pages after waiting l l' result b records =>
      refine ⟨rfl, .join l.length, ?_⟩
      simp [act, List.eraseIdx_append_of_length_le (le_refl l.length)]
  | @fail pages after waiting l l' result b e =>
      refine ⟨rfl, .join l.length, ?_⟩
      simp [act]
  | finish => exact ⟨rfl, .finish, rfl⟩

end Scan

end Pulpitum
