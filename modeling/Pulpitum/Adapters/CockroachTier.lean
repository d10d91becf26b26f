import Mathlib
import Pulpitum.Adapters.CockroachRoutes
import Pulpitum.Adapters.Tiers

/-!
# Adapters — Cockroach tier

`CockroachDurableBucketStore` as the store below a table: any number of processes over one
database, each with a route cache.  A `read_range` is answered from a cache of any of them or by
its statement, and fills, invalidations, restarts and reads of others come in between.

* `Tables.discovered`: what is discovered is in the rows.
* `RouteServes.tables_inv`: **a read answered from a cache is one of the tables.**
* `cockroachTier`: the processes, below a table.
-/

namespace Pulpitum
namespace Cockroach

/-! ### The tables -/

/-- An operation on the tables: one transaction, or a discovery, which reads rows at two times and
lists what it has found. -/
inductive Tables : (q : StoreRequest) → Db → q.Reply → Db → Prop where
  | transaction (env : Env) (q : StoreRequest) (db : Db) :
      Tables q db (exec env q db).1 (exec env q db).2
  | discover {scan : ArchiveScan} {work : List ArchiveWork} {db : Db}
      (h : ∀ w ∈ work, InRows db w.bucket) : Tables (.discoverArchiveWork scan) db (.ok work) db

variable {q : StoreRequest} {r : q.Reply} {db db' : Db} {b : BucketId} {env : Env}

theorem Tables.serves (h : Tables q db r db') : Serves q db r db' := by
  cases h with
  | transaction => exact .exec _ _ _
  | discover => exact .discover _ _ _

/-- The rows that a statement of the discovery selects. -/
theorem inRows_of_mapM {rows : List MetadataRow} {bs : List BucketId}
    (hrows : ∀ m ∈ rows, m ∈ db.metadata.rows) (h : rows.mapM bucketFromRow = .ok bs) :
    ∀ b ∈ bs, InRows db b := by
  intro b hb
  obtain ⟨m, hm, hrow⟩ := Fallible.mem_of_mapM_eq_ok h b hb
  exact ⟨m, hrows m hm, hrow⟩

theorem inRows_of_discoverArchiveWork {scan : ArchiveScan} {work : List ArchiveWork}
    (h : discoverArchiveWork env scan db = .ok (work, db')) : ∀ w ∈ work, InRows db w.bucket := by
  have hselected : ∀ (p : MetadataRow → Bool) (n : ℕ),
      ∀ m ∈ (((db.metadata.rows.filter p).insertionSort fun a b =>
        discoveryKey a ≤ discoveryKey b).take n), m ∈ db.metadata.rows := fun p n m hm =>
    List.mem_of_mem_filter ((List.perm_insertionSort _ _).mem_iff.mp (List.mem_of_mem_take hm))
  obtain ⟨cleanup, hcleanup, h⟩ := Fallible.ok_of_bind h
  have hc := inRows_of_mapM (hselected _ _) hcleanup
  dsimp only at h
  split at h
  · cases h
    exact List.forall_mem_map.mpr hc
  · obtain ⟨cutover, hcutover, h⟩ := Fallible.ok_of_bind h
    cases h
    refine List.forall_mem_append.mpr ⟨List.forall_mem_map.mpr hc, List.forall_mem_map.mpr ?_⟩
    exact inRows_of_mapM (hselected _ _) hcutover

/-- **What is discovered is in the rows.** -/
theorem Tables.discovered {scan : ArchiveScan} {work : List ArchiveWork}
    (h : Tables (.discoverArchiveWork scan) db (.ok work) db') :
    ∀ w ∈ work, InRows db w.bucket := by
  generalize hr : (Except.ok work : StoreRequest.Reply (.discoverArchiveWork scan)) = reply at h
  cases h with
  | transaction env =>
      have hexec : exec env (.discoverArchiveWork scan) db =
          (.ok work, (exec env (.discoverArchiveWork scan) db).2) := Prod.ext hr.symm rfl
      exact inRows_of_discoverArchiveWork (exec_eq_ok_iff.mp hexec)
  | discover hwork =>
      cases hr
      exact hwork

/-- No operation on the tables changes a route. -/
theorem Tables.routes (h : Tables q db r db') :
    ∀ k key, routeAt db k = some key → routeAt db' k = some key := by
  cases h with
  | transaction env => exact fun _ _ => routeAt_exec env q
  | discover => exact fun _ _ => id

/-! ### The caches -/

/-- What a process does after the operation: the fill of a `read_range`, or an invalidation. -/
def follow? : (q : StoreRequest) → q.Reply → Option RouteCall
  | .readRange b range after limit, .ok (.archive key) =>
      some (.filling ⟨b, range, after, limit⟩ key)
  | q, r => (invalidated? q r).map .invalidating

/-- An operation of one of the processes. -/
inductive RouteServes : (q : StoreRequest) → Routing → q.Reply → Routing → Prop where
  /-- `read_range`, with the route in the cache. -/
  | hit {db : Db} {ps : List RouteProcess} {p : RouteProcess} {b : BucketId} {range : TimeRange}
      {after : Option Cursor} {limit : ℕ} {key : String} (hp : p ∈ ps)
      (h : p.cache.archived b = some key) :
      RouteServes (.readRange b range after limit) ⟨db, ps⟩ (.ok (.archive key)) ⟨db, ps⟩
  | tables {q : StoreRequest} {db db' : Db} {r : q.Reply} {l l' : List RouteProcess}
      {p : RouteProcess} (h : Tables q db r db') :
      RouteServes q ⟨db, l ++ p :: l'⟩ r
        ⟨db', l ++ ⟨p.cache, (follow? q r).toList ++ p.calls⟩ :: l'⟩

/-- A step of the processes that leaves the tables as they are. -/
def QuietStep (s s' : Routing) : Prop := Routing.Step s s' ∧ s'.db = s.db

/-- An operation, with whatever the processes do until then. -/
def serveRouted (q : StoreRequest) (s : Routing) (r : q.Reply) (s' : Routing) : Prop :=
  ∃ s₁, Relation.ReflTransGen QuietStep s s₁ ∧ RouteServes q s₁ r s'

theorem quiet_steps {s s' : Routing} (h : Relation.ReflTransGen QuietStep s s') (hs : s.Inv) :
    s'.Inv ∧ s'.db = s.db := by
  induction h with
  | refl => exact ⟨hs, rfl⟩
  | tail _ hstep ih => exact ⟨ih.1.step hstep.1, hstep.2.trans ih.2⟩

/-- A read with the answer that its statement gives. -/
theorem tables_of_route {key : String} (h : routeAt db (refOf b) = some key) (range : TimeRange)
    (after : Option Cursor) (limit : ℕ) :
    Tables (.readRange b range after limit) db (.ok (.archive key)) db := by
  have hread := readRange_of_route h range after limit
  have hexec : exec (Sample.env "") (.readRange b range after limit) db =
      (.ok (.archive key), db) := exec_eq_ok_iff.mpr hread
  have htables := Tables.transaction (Sample.env "") (.readRange b range after limit) db
  rw [hexec] at htables
  exact htables

/-- What follows an operation is sound. -/
theorem sound_of_follow (h : Tables q db r db') :
    ∀ call ∈ (follow? q r).toList, call.Sound db' := by
  have hroutes := h.routes
  intro call hcall
  rw [Option.mem_toList] at hcall
  unfold follow? at hcall
  split at hcall
  · rename_i b range after limit key
    cases hcall
    refine hroutes _ _ ?_
    generalize hr : (Except.ok (.archive key) :
      StoreRequest.Reply (.readRange b range after limit)) = reply at h
    cases h with
    | transaction env =>
        have hexec : exec env (.readRange b range after limit) db =
            (.ok (.archive key), (exec env (.readRange b range after limit) db).2) :=
          Prod.ext hr.symm rfl
        exact route_of_readRange (exec_eq_ok_iff.mp hexec)
  · obtain ⟨b, -, rfl⟩ := Option.map_eq_some_iff.mp hcall
    trivial

/-- **An operation is one on the tables**, also if it is answered from a cache. -/
theorem RouteServes.tables_inv {s s' : Routing} (h : RouteServes q s r s') (hs : s.Inv) :
    Tables q s.db r s'.db ∧ s'.Inv := by
  cases h with
  | hit hp hc =>
      obtain ⟨entry, hl, rfl⟩ := Option.map_eq_some_iff.mp hc
      exact ⟨tables_of_route ((hs _ hp).cache _ entry hl) _ _ _, hs⟩
  | @tables _ db db' _ l l' p ht =>
      have hall : ∀ x ∈ l ++ p :: l', x.Inv db' := fun x hx => (hs x hx).mono ht.routes
      obtain ⟨hcache, hcalls, hsize⟩ := hall p (List.mem_append_right _ (List.mem_cons_self ..))
      exact ⟨ht, forall_mem_replace hall
        ⟨hcache, List.forall_mem_append.mpr ⟨sound_of_follow ht, hcalls⟩, hsize⟩⟩

theorem serveRouted_tables {s s' : Routing} (hs : s.Inv) (h : serveRouted q s r s') :
    Tables q s.db r s'.db ∧ s'.Inv := by
  obtain ⟨s₁, hquiet, h⟩ := h
  obtain ⟨hinv, hdb⟩ := quiet_steps hquiet hs
  exact hdb ▸ h.tables_inv hinv

theorem serveRouted_serves {s s' : Routing} (hs : s.Inv) (h : serveRouted q s r s') :
    Serves q s.db r s'.db ∧ s'.Inv := by
  obtain ⟨htables, hinv⟩ := serveRouted_tables hs h
  exact ⟨htables.serves, hinv⟩

theorem serveRouted_discovers {Good : BucketId → Prop} {scan : ArchiveScan}
    {work : List ArchiveWork} {s s' : Routing} (hs : s.Inv) (hrows : GoodRows Good s.db)
    (h : serveRouted (.discoverArchiveWork scan) s (.ok work) s') : ∀ w ∈ work, Good w.bucket := by
  intro w hw
  obtain ⟨m, hm, hb⟩ := (serveRouted_tables hs h).1.discovered w hw
  exact hrows m hm _ hb

/-- A new process can read. -/
theorem serveRouted_reads (b : BucketId) (range : TimeRange) (after : Option Cursor) (limit : ℕ)
    (s : Routing) : ∃ r s', serveRouted (.readRange b range after limit) s r s' :=
  ⟨_, _, _, .single ⟨.start, rfl⟩, .tables (l := []) (.transaction (Sample.env "") _ _)⟩

/-- The processes, below a table. -/
def cockroachTier (Good : BucketId → Prop) : StoreTier Good where
  State := Routing
  db := Routing.db
  Inv := Routing.Inv
  serve := serveRouted
  tables := serveRouted_serves
  discovers := serveRouted_discovers
  reads := serveRouted_reads

end Cockroach
end Pulpitum
