import Mathlib
import Pulpitum.Adapters.CockroachCutover
import Pulpitum.Adapters.Discovery

/-!
# Adapters — Tiers

What a table in production is built over: a store that keeps its tables, whatever it caches in
front of them, and an archive store that keeps its objects, however it uploads them.

* `StoreTier`: a store in which every operation is one on the tables.
* `ArchiveTier`: an archive store in which the objects of uploads that succeeded can be read.
* `GoodRows.step`: **every row is of a bucket that archival may be asked for**, if all that is
  appended to or archived is.
-/

namespace Pulpitum
namespace Cockroach

/-! ### The store -/

/-- The buckets that archival may be asked for: all that a strategy derives are, and a row of one
is of one. -/
structure Admissible (Good : BucketId → Prop) : Prop where
  canonical : ∀ {b}, b.Canonical → Good b
  row : ∀ {b b'}, Good b → bucketFromRow (.new b) = .ok b' → Good b'

/-- Every row is of a bucket that archival may be asked for. -/
def GoodRows (Good : BucketId → Prop) (db : Db) : Prop :=
  ∀ m ∈ db.metadata.rows, ∀ b, bucketFromRow m = .ok b → Good b

/-- A store over the tables, with what it keeps besides them. -/
structure StoreTier (Good : BucketId → Prop) where
  State : Type
  db : State → Db
  /-- What the store keeps besides the tables agrees with them. -/
  Inv : State → Prop
  serve : (q : StoreRequest) → State → q.Reply → State → Prop
  tables : ∀ {q : StoreRequest} {s s' : State} {r : q.Reply}, Inv s → serve q s r s' →
    Serves q (db s) r (db s') ∧ Inv s'
  discovers : ∀ {scan : ArchiveScan} {work : List ArchiveWork} {s s' : State}, Inv s →
    GoodRows Good (db s) → serve (.discoverArchiveWork scan) s (.ok work) s' →
    ∀ w ∈ work, Good w.bucket
  reads : ∀ (b : BucketId) (range : TimeRange) (after : Option Cursor) (limit : ℕ) (s : State),
    ∃ r s', serve (.readRange b range after limit) s r s'

/-! ### The archive store -/

/-- The key is one that an upload of the bucket returns. -/
def KeyOf (objectKey : BucketId → Option ℕ → List Record → String) (b : BucketId) (key : String) :
    Prop :=
  ∃ b' g rs, refOf b' = refOf b ∧ objectKey b' (some g) rs = key

/-- An archive store, with the objects that its uploads have returned keys of. -/
structure ArchiveTier (Good : BucketId → Prop)
    (objectKey : BucketId → Option ℕ → List Record → String) where
  State : Type
  serve : (q : ArchiveRequest) → State → q.Reply → State → Prop
  /-- The objects under the keys that were returned. -/
  Keeps : State → Objects → Prop
  put : ∀ {x x' : State} {o : Objects} {b : BucketId} {g : ℕ} {rs : List Record}
    {r : Except StoreError String}, Keeps x o → Good b → (∀ y ∈ rs, y.eventTime.Whole) →
      serve (.putBucketGeneration b g rs) x r x' →
      ∃ o', KeepsObjects objectKey (.putBucketGeneration b g rs) o r o' ∧ Keeps x' o'
  get : ∀ {x x' : State} {o : Objects} {b : BucketId} {key : String}
    {r : Except StoreError (List Record)}, Keeps x o → serve (.getBucket b key) x r x' →
      Keeps x' o ∧ (b.Canonical → KeyOf objectKey b key → ∀ rs, o key = some rs → r = .ok rs)
  reads : ∀ (b : BucketId) (key : String) (x : State), ∃ r x', serve (.getBucket b key) x r x'

/-- The store, next to the archive store. -/
def tiersOf {Good : BucketId → Prop} {objectKey : BucketId → Option ℕ → List Record → String}
    (T : StoreTier Good) (A : ArchiveTier Good objectKey) : Services := .of T.serve A.serve

/-! ### The buckets of the rows -/

variable {Good : BucketId → Prop} {q : StoreRequest} {r : q.Reply} {db db' : Db} {env : Env}

/-- The operation may insert a row for this bucket. -/
def inserted? : StoreRequest → Option BucketId
  | .append b _ | .beginArchive b => some b
  | _ => none

/-- Every statement keeps the bucket of a row, or inserts one. -/
theorem writes_good {ws : List Write} (hgood : Admissible Good) (hq : ∀ b ∈ inserted? q, Good b)
    (h : writes env q = .ok ws) : ∀ w ∈ ws, w.Makes fun old row =>
      (∀ m ∈ old, ∀ b, bucketFromRow m = .ok b → Good b) →
        ∀ b, bucketFromRow row = .ok b → Good b := by
  cases q with
  | append b r =>
      cases h
      exact List.forall_mem_singleton.mpr fun _ _ => hgood.row (hq b rfl)
  | beginArchive b =>
      cases h
      refine List.forall_mem_cons.mpr ⟨fun _ _ => hgood.row (hq b rfl), ?_⟩
      exact List.forall_mem_singleton.mpr fun m _ _ hm => hm m rfl
  | claimArchive b d | claimCleanup b d =>
      obtain ⟨t, -, h⟩ := Fallible.ok_of_bind h
      cases h
      exact List.forall_mem_singleton.mpr fun m _ _ hm => hm m rfl
  | renewArchiveLease session d | deferCleanup session d | deferArchive session d =>
      obtain ⟨g, -, h⟩ := Fallible.ok_of_bind h
      obtain ⟨t, -, h⟩ := Fallible.ok_of_bind h
      cases h
      exact List.forall_mem_singleton.mpr fun m _ _ hm => hm m rfl
  | publishArchive session key | deleteHotBucket session | abortArchive session =>
      obtain ⟨g, -, h⟩ := Fallible.ok_of_bind h
      cases h
      exact List.forall_mem_singleton.mpr fun m _ _ hm => hm m rfl
  | state b | discoverArchiveWork scan | readRange b range after limit | snapshot session =>
      cases h
      exact List.forall_mem_nil _

/-- **The rows stay those of buckets that archival may be asked for.** -/
theorem GoodRows.step (h : GoodRows Good db) (hgood : Admissible Good)
    (hq : ∀ b ∈ inserted? q, Good b) (hs : Serves q db r db') : GoodRows Good db' := by
  cases hs with
  | exec env =>
      exact keep_rows_step (c := ⟨env, q, (exec env q db).1⟩) rfl
        (fun _ hws => writes_good hgood hq hws) h
  | discover => exact h

end Cockroach
end Pulpitum
