import Mathlib
import Pulpitum.Support.Memo
import Pulpitum.Support.Runs
import Pulpitum.Adapters.CockroachDurable

/-!
# Adapters — Cockroach routes

The route cache of `CockroachDurableBucketStore`, and any number of processes that each have one,
over one database.  An operation is one transaction; a lookup, a fill and an invalidation are
steps of their own, and other processes' transactions come between them.

A transaction of another process invalidates nothing here, so a cached route is right only because
routes are for ever.

* `routeAt_exec`: **no operation changes the route of an archived bucket.**
* `readRange_of_route`: a bucket with a route is read as that route.
* `Routing.Inv.step`: every cached route is the one in the database, step by step.
-/

namespace Pulpitum
namespace Cockroach

open Fallible

/-! ### The cache -/

/-- `CachedArchiveEntry`; `observed_at` is a reading of the monotonic clock. -/
structure CachedArchiveEntry where
  objectKey : String
  observedAt : ℕ
deriving DecidableEq

/-- `RouteCache`. -/
abbrev RouteCache := AList fun _ : BucketId => CachedArchiveEntry

/-- `ROUTE_CACHE_MAX_ENTRIES`. -/
def routeCacheMaxEntries : ℕ := 4096

namespace RouteCache

/-- `archived`. -/
def archived (bucket : BucketId) (c : RouteCache) : Option String :=
  (c.lookup bucket).map CachedArchiveEntry.objectKey

/-- `cache_archive_at`. -/
def cacheArchiveAt (bucket : BucketId) (objectKey : String) (observedAt : ℕ) (c : RouteCache) :
    RouteCache :=
  let c :=
    if bucket ∉ c ∧ routeCacheMaxEntries ≤ Memo.size c then
      match Memo.oldest CachedArchiveEntry.observedAt c with
      | some oldestBucket => c.erase oldestBucket
      | none => c
    else c
  c.insert bucket ⟨objectKey, observedAt⟩

/-- `invalidate`. -/
def invalidate (bucket : BucketId) (c : RouteCache) : RouteCache := c.erase bucket

/-- The cache stays within its limit. -/
theorem size_cacheArchiveAt {c : RouteCache} (h : Memo.size c ≤ routeCacheMaxEntries)
    (bucket : BucketId) (objectKey : String) (observedAt : ℕ) :
    Memo.size (c.cacheArchiveAt bucket objectKey observedAt) ≤ routeCacheMaxEntries := by
  unfold cacheArchiveAt
  dsimp only
  by_cases hb : bucket ∈ c
  · rw [if_neg fun hc => hc.1 hb, Memo.size_insert_of_mem hb]
    exact h
  · split
    · rename_i hfull
      split
      · rename_i old hold
        have hsize := Memo.size_erase_of_mem (Memo.mem_of_oldest hold)
        have hb' : bucket ∉ c.erase old := fun hm => hb ((AList.mem_erase.mp hm).2)
        rw [Memo.size_insert_of_notMem hb']
        omega
      · rename_i hnone
        have hsize := Memo.size_of_oldest_eq_none hnone
        rw [hsize] at hfull
        exact absurd hfull.2 (by decide)
    · rename_i hfull
      rw [Memo.size_insert_of_notMem hb]
      have : ¬ routeCacheMaxEntries ≤ Memo.size c := fun hle => hfull ⟨hb, hle⟩
      omega

end RouteCache

/-! ### Routes -/

/-- The object key of the row of `k`, if it is archived. -/
def routeAt (db : Db) (k : BucketRef) : Option String :=
  match db.metadata.find? k with
  | some m => if m.state = .archived then m.archiveObjectKey else none
  | none => none

variable {db db' : Db} {k : BucketRef} {key : String} {b : BucketId}

theorem routeAt_eq_some :
    routeAt db k = some key ↔ ∃ m, db.metadata.find? k = some m ∧ m.state = .archived ∧
      m.archiveObjectKey = some key := by
  unfold routeAt
  cases db.metadata.find? k with
  | none => simp
  | some m => simp

/-- A row is set, and what was archived under its key stays. -/
theorem SetsRow.routeAt {k' : BucketRef} {m : MetadataRow} (h : SetsRow db k' m db')
    (hr : routeAt db k = some key) (hm : k' = k → m.state = .archived ∧
      m.archiveObjectKey = some key) : routeAt db' k = some key := by
  obtain ⟨m₀, hk, hs, ho⟩ := routeAt_eq_some.mp hr
  by_cases hkk : k' = k
  · exact routeAt_eq_some.mpr ⟨m, by rw [h.find?, if_pos hkk], hm hkk⟩
  · exact routeAt_eq_some.mpr ⟨m₀, by rw [h.find?, if_neg hkk]; exact hk, hs, ho⟩

/-- **No operation changes the route of an archived bucket.** -/
theorem Effect.routeAt {env : Env} {q : StoreRequest} {r : q.Reply} (h : Effect env db q r db')
    (hr : routeAt db k = some key) : routeAt db' k = some key := by
  obtain ⟨m₀, hk₀, hs₀, ho₀⟩ := routeAt_eq_some.mp hr
  -- the row of the operation, where it is this one, is the archived one
  have same : ∀ {k' : BucketRef} {m : MetadataRow}, db.metadata.find? k' = some m → k' = k →
      m = m₀ := fun hk hkk => Option.some.inj ((hkk ▸ hk).symm.trans hk₀)
  have rowOf : ∀ {b : BucketId}, refOf b = k → rowOrNew db b = m₀ := fun hkk => by
    rw [rowOrNew, hkk, hk₀]; rfl
  cases h with
  | look => exact hr
  | append _ hp hm =>
      refine hm.routeAt hr fun hkk => ?_
      rw [rowOf hkk]
      exact ⟨hs₀, ho₀⟩
  | claimArchive hk hp hm =>
      refine hm.routeAt hr fun hkk => ?_
      obtain rfl := same hk hkk
      rw [hs₀] at hp
      rcases hp with hp | ⟨hp, -⟩ <;> cases hp
  | claimCleanup hk _ hm =>
      refine hm.routeAt hr fun hkk => ?_
      obtain rfl := same hk hkk
      exact ⟨hs₀, ho₀⟩
  | beginArchive hp hm =>
      refine hm.routeAt hr fun hkk => ?_
      rw [rowOf hkk, hs₀] at hp
      rcases hp with hp | ⟨hp, -⟩ <;> cases hp
  | renew hk _ hm | deferCleanup hk _ _ hm | deleteHot hk _ _ hm =>
      refine hm.routeAt hr fun hkk => ?_
      obtain rfl := same hk hkk
      exact ⟨hs₀, ho₀⟩
  | snapshot => exact hr
  | deferArchive hk hp _ hm | publish hk hp _ hm | abort hk hp _ hm =>
      refine hm.routeAt hr fun hkk => ?_
      obtain rfl := same hk hkk
      rw [hs₀] at hp
      cases hp

theorem routeAt_exec (env : Env) (q : StoreRequest) (hr : routeAt db k = some key) :
    routeAt (exec env q db).2 k = some key :=
  (exec_effect env q db).routeAt hr

/-- The statement of `read_range` answers with the route of a bucket that has one. -/
theorem readRange_of_route (hr : routeAt db (refOf b) = some key) (range : TimeRange)
    (after : Option Cursor) (limit : ℕ) :
    readRange b range after limit db = .ok (.archive key, db) := by
  obtain ⟨m, hk, hs, ho⟩ := routeAt_eq_some.mp hr
  unfold readRange
  rw [hk]
  dsimp only
  rw [hs, ho]
  simp [sortRows, decodeRows, routedReadFromSnapshot, bind, Except.bind, pure, Except.pure]

/-- A route that the statement answers is the one in the database. -/
theorem route_of_readRange {range : TimeRange} {after : Option Cursor} {limit : ℕ}
    (h : readRange b range after limit db = .ok (.archive key, db')) :
    routeAt db (refOf b) = some key := by
  obtain ⟨records, -, h⟩ := ok_of_bind h
  obtain ⟨read, hread, h⟩ := ok_of_bind h
  cases h
  rw [routeAt]
  cases hk : db.metadata.find? (refOf b) with
  | none => rw [hk] at hread; cases hread
  | some m =>
      rw [hk] at hread
      dsimp only at hread ⊢
      unfold routedReadFromSnapshot at hread
      split at hread
      · cases hread
      · cases hread
      · rename_i hs ho
        rw [if_pos hs, ho]
        split at hread
        · cases hread; rfl
        · cases hread
      · cases hread

/-! ### Processes -/

/-- The bucket an operation invalidates after its transaction committed. -/
def invalidated? : (q : StoreRequest) → q.Reply → Option BucketId
  | .claimArchive .., .ok (some session) => some session.bucket
  | .beginArchive _, .ok session => some (ArchiveSession.bucket session)
  | .deferArchive session _, .ok () => some session.bucket
  | .publishArchive session _, .ok () => some session.bucket
  | .abortArchive session, .ok () => some session.bucket
  | _, _ => none

/-- The arguments of a `read_range`. -/
structure ReadArgs where
  bucket : BucketId
  range : TimeRange
  after : Option Cursor
  limit : ℕ

/-- A call on a store, as far as it has come. -/
inductive RouteCall where
  /-- Before the transaction of an operation. -/
  | operating (q : StoreRequest)
  /-- Before the invalidation after it. -/
  | invalidating (bucket : BucketId)
  /-- Before the lookup of a `read_range`. -/
  | reading (args : ReadArgs)
  /-- Before its statement. -/
  | missed (args : ReadArgs)
  /-- Before its fill. -/
  | filling (args : ReadArgs) (objectKey : String)
  | answered (args : ReadArgs) (r : Except DurableBucketStoreError DurableBucketRead)

/-- A route that the call is about to cache is the one in the database. -/
def RouteCall.Sound (db : Db) : RouteCall → Prop
  | .filling args key => routeAt db (refOf args.bucket) = some key
  | _ => True

theorem RouteCall.Sound.mono {call : RouteCall} (h : call.Sound db)
    (hroutes : ∀ k key, routeAt db k = some key → routeAt db' k = some key) : call.Sound db' := by
  cases call with
  | filling args key => exact hroutes _ _ h
  | _ => trivial

/-- A process: the route cache of its store, and the calls on it. -/
structure RouteProcess where
  cache : RouteCache
  calls : List RouteCall

namespace RouteProcess

/-- One step of one call, on the database and its process. -/
inductive Step : Db → RouteProcess → Db → RouteProcess → Prop where
  | operate {db c calls q} : Step db ⟨c, calls⟩ db ⟨c, .operating q :: calls⟩
  | read {db c calls args} : Step db ⟨c, calls⟩ db ⟨c, .reading args :: calls⟩
  /-- The transaction, with an invalidation to follow. -/
  | transact {db c l l' q env b} (h : invalidated? q (exec env q db).1 = some b) :
      Step db ⟨c, l ++ .operating q :: l'⟩ (exec env q db).2 ⟨c, l ++ .invalidating b :: l'⟩
  /-- The transaction, with nothing to follow or with its reply lost. -/
  | transact_only {db c l l' q env} :
      Step db ⟨c, l ++ .operating q :: l'⟩ (exec env q db).2 ⟨c, l ++ l'⟩
  | invalidate {db c l l' b} :
      Step db ⟨c, l ++ .invalidating b :: l'⟩ db ⟨c.invalidate b, l ++ l'⟩
  | hit {db c l l' args key} (h : c.archived args.bucket = some key) :
      Step db ⟨c, l ++ .reading args :: l'⟩ db ⟨c, l ++ .answered args (.ok (.archive key)) :: l'⟩
  | miss {db c l l' args} (h : c.archived args.bucket = none) :
      Step db ⟨c, l ++ .reading args :: l'⟩ db ⟨c, l ++ .missed args :: l'⟩
  | statement {db c l l' args key}
      (h : readRange args.bucket args.range args.after args.limit db = .ok (.archive key, db)) :
      Step db ⟨c, l ++ .missed args :: l'⟩ db ⟨c, l ++ .filling args key :: l'⟩
  | statement_hot {db c l l' args records}
      (h : readRange args.bucket args.range args.after args.limit db = .ok (.hot records, db)) :
      Step db ⟨c, l ++ .missed args :: l'⟩ db ⟨c, l ++ .answered args (.ok (.hot records)) :: l'⟩
  | statement_failed {db c l l' args e} :
      Step db ⟨c, l ++ .missed args :: l'⟩ db ⟨c, l ++ .answered args (.error e) :: l'⟩
  | fill {db c l l' args key t} :
      Step db ⟨c, l ++ .filling args key :: l'⟩ db
        ⟨c.cacheArchiveAt args.bucket key t, l ++ .answered args (.ok (.archive key)) :: l'⟩
  /-- The call's future is dropped, or its caller is done with it. -/
  | drop {db c l l' call} : Step db ⟨c, l ++ call :: l'⟩ db ⟨c, l ++ l'⟩

/-- What holds of a process: its cached routes, and those it is about to cache, are the ones in the
database, and the cache is within its limit. -/
structure Inv (db : Db) (p : RouteProcess) : Prop where
  cache : Memo.Coherent (fun b => routeAt db (refOf b)) CachedArchiveEntry.objectKey p.cache
  calls : ∀ call ∈ p.calls, call.Sound db
  size : Memo.size p.cache ≤ routeCacheMaxEntries

/-- Every step of this process or another one that keeps the routes keeps a process sound. -/
theorem Inv.mono {p : RouteProcess} (h : Inv db p)
    (hroutes : ∀ k key, routeAt db k = some key → routeAt db' k = some key) : Inv db' p where
  cache := h.cache.mono fun b => hroutes (refOf b)
  calls call hc := (h.calls call hc).mono hroutes
  size := h.size

/-- A step keeps every route. -/
theorem Step.routes {p p' : RouteProcess} (h : Step db p db' p') :
    ∀ k key, routeAt db k = some key → routeAt db' k = some key := by
  intro k key hr
  cases h with
  | transact | transact_only => exact routeAt_exec _ _ hr
  | _ => exact hr

/-- **One step keeps its process sound.** -/
theorem Inv.step {p p' : RouteProcess} (h : Inv db p) (hs : Step db p db' p') : Inv db' p' := by
  obtain ⟨hcache, hcalls, hsize⟩ := h.mono hs.routes
  cases hs with
  | operate | read => exact ⟨hcache, List.forall_mem_cons.mpr ⟨trivial, hcalls⟩, hsize⟩
  | transact => exact ⟨hcache, forall_mem_replace hcalls trivial, hsize⟩
  | transact_only | drop => exact ⟨hcache, forall_mem_remove hcalls, hsize⟩
  | invalidate => exact ⟨hcache.erase, forall_mem_remove hcalls, Memo.size_erase_le.trans hsize⟩
  | hit | miss | statement_hot | statement_failed =>
      exact ⟨hcache, forall_mem_replace hcalls trivial, hsize⟩
  | statement hread =>
      exact ⟨hcache, forall_mem_replace hcalls (route_of_readRange hread), hsize⟩
  | @fill c l l' args key t =>
      have hroute : routeAt db (refOf args.bucket) = some key :=
        hcalls (.filling args key) (List.mem_append_right _ (List.mem_cons_self ..))
      refine ⟨?_, forall_mem_replace hcalls trivial, RouteCache.size_cacheArchiveAt hsize _ _ _⟩
      unfold RouteCache.cacheArchiveAt
      dsimp only
      refine Memo.Coherent.insert ?_ hroute
      -- whatever was evicted, the rest is coherent
      split
      · split
        · exact hcache.erase
        · exact hcache
      · exact hcache

end RouteProcess

/-- The database and the processes over it. -/
structure Routing where
  db : Db
  processes : List RouteProcess

namespace Routing

/-- One step of one process, or a new process. -/
inductive Step : Routing → Routing → Prop where
  | start {db ps} : Step ⟨db, ps⟩ ⟨db, ⟨∅, []⟩ :: ps⟩
  | process {db db' l l' p p'} (h : RouteProcess.Step db p db' p') :
      Step ⟨db, l ++ p :: l'⟩ ⟨db', l ++ p' :: l'⟩

/-- The states that a run reaches. -/
abbrev Reaches : Routing → Routing → Prop := Relation.ReflTransGen Step

/-- A step keeps every route. -/
theorem Step.routes {s s' : Routing} (h : Step s s') :
    ∀ k key, routeAt s.db k = some key → routeAt s'.db k = some key := by
  cases h with
  | start => exact fun _ _ => id
  | process h => exact h.routes

/-- **Published routes are permanent.** -/
theorem Reaches.routes {s s' : Routing} (h : Reaches s s') :
    ∀ k key, routeAt s.db k = some key → routeAt s'.db k = some key := by
  induction h with
  | refl => exact fun _ _ => id
  | tail _ hs ih => exact fun k key hr => hs.routes k key (ih k key hr)

/-- Every process is sound. -/
def Inv (s : Routing) : Prop := ∀ p ∈ s.processes, p.Inv s.db

theorem Inv.step {s s' : Routing} (h : Inv s) (hs : Step s s') : Inv s' := by
  cases hs with
  | start =>
      exact List.forall_mem_cons.mpr ⟨⟨Memo.Coherent.empty, fun _ => (absurd · List.not_mem_nil),
        by decide⟩, h⟩
  | @process db db' l l' p p' hp =>
      have hall : ∀ x ∈ l ++ p :: l', x.Inv db' := fun x hx => (h x hx).mono hp.routes
      exact forall_mem_replace hall
        ((h p (List.mem_append_right _ (List.mem_cons_self ..))).step hp)

theorem Inv.reaches {s s' : Routing} (h : Inv s) (hr : Reaches s s') : Inv s' := by
  induction hr with
  | refl => exact h
  | tail _ hs ih => exact ih.step hs

end Routing

/-- **Published routes are permanent and the route caches are coherent**, for every run of any
number of processes over one database.  A route that a state has is a route of every later one; a
cached route is the one in the database, so that a read answered from the cache is answered as the
statement would; and no cache exceeds its limit. -/
theorem routes_coherent {db : Db} {s s' : Routing} (h : Routing.Reaches ⟨db, []⟩ s)
    (h' : Routing.Reaches s s') :
    (∀ k key, routeAt s.db k = some key → routeAt s'.db k = some key) ∧
      ∀ p ∈ s'.processes, (∀ b key, p.cache.archived b = some key →
          routeAt s'.db (refOf b) = some key ∧
          ∀ env range after limit,
            (exec env (.readRange b range after limit) s'.db).1 = .ok (.archive key)) ∧
        Memo.size p.cache ≤ 4096 := by
  have hinv : s'.Inv :=
    Routing.Inv.reaches (fun _ => (absurd · List.not_mem_nil)) (h.trans h')
  refine ⟨h'.routes, fun p hp => ⟨fun b key hb => ?_, (hinv p hp).size⟩⟩
  obtain ⟨entry, hl, rfl⟩ := Option.map_eq_some_iff.mp hb
  have hroute := (hinv p hp).cache b entry hl
  refine ⟨hroute, fun env range after limit => ?_⟩
  rw [exec, show body env (.readRange b range after limit) s'.db = _ from
    readRange_of_route hroute range after limit]

namespace Sample

/-- The sample bucket, published as `key`. -/
def published : Db :=
  (exec (env "a") (.publishArchive ⟨Pulpitum.Sample.bucket, "a", 1⟩ "key")
    (exec (env "a") (.beginArchive Pulpitum.Sample.bucket) Db.empty).2).2

theorem route_published : routeAt published (refOf Pulpitum.Sample.bucket) = some "key" := rfl

/-- A read of the sample bucket. -/
def readArgs : ReadArgs where
  bucket := Pulpitum.Sample.bucket
  range := ⟨Pulpitum.Sample.bucket.start, Pulpitum.Sample.bucket.endAt⟩
  after := none
  limit := 1

/-- A process that read the bucket once. -/
def routed : Routing where
  db := published
  processes := [⟨RouteCache.cacheArchiveAt Pulpitum.Sample.bucket "key" 0 ∅,
    [.answered readArgs (.ok (.archive "key"))]⟩]

theorem reaches_routed : Routing.Reaches ⟨published, []⟩ routed := by
  have hread : RouteProcess.Step published ⟨∅, [.missed readArgs]⟩ published
      ⟨∅, [.filling readArgs "key"]⟩ :=
    .statement (l := []) (readRange_of_route route_published _ _ _)
  have hfill : RouteProcess.Step published ⟨∅, [.filling readArgs "key"]⟩ published
      ⟨RouteCache.cacheArchiveAt Pulpitum.Sample.bucket "key" 0 ∅,
        [.answered readArgs (.ok (.archive "key"))]⟩ :=
    RouteProcess.Step.fill (l := []) (t := 0)
  exact .tail (.tail (.tail (.tail (.tail .refl .start) (.process (l := []) .read))
    (.process (l := []) (.miss (l := []) rfl))) (.process (l := []) hread))
    (.process (l := []) hfill)

end Sample

/-- A process that read a published bucket has its route cached. -/
theorem routes_coherent_of_routed :
    (∃ p ∈ Sample.routed.processes, p.cache.archived Pulpitum.Sample.bucket = some "key") ∧
    (∀ k key, routeAt Sample.published k = some key → routeAt Sample.routed.db k = some key) ∧
      ∀ p ∈ Sample.routed.processes, (∀ b key, p.cache.archived b = some key →
          routeAt Sample.routed.db (refOf b) = some key ∧
          ∀ env range after limit,
            (exec env (.readRange b range after limit) Sample.routed.db).1 = .ok (.archive key)) ∧
        Memo.size p.cache ≤ 4096 :=
  ⟨⟨_, List.mem_cons_self .., rfl⟩, routes_coherent .refl Sample.reaches_routed⟩

end Cockroach
end Pulpitum
