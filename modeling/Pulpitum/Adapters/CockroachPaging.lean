import Mathlib
import Pulpitum.Adapters.TierPaging

/-!
# Adapters — Cockroach paging

Paging through a table over `CockroachDurableBucketStore` and any archive store that keeps its
objects.  Rows are decoded when they are read, and archival may be asked for any bucket.

* `tablesTier`, `objectsTier`: the two stores, as tiers below a table.
* `paging_delivers_iff`: **a scan delivers every record once, in order**, exactly if its range ends
  at or before the horizon of the table's strategy.
-/

namespace Pulpitum
namespace Cockroach

/-! ### The stores -/

/-- An object that is there can be read. -/
def ReadsObjects : (q : ArchiveRequest) → Objects → q.Reply → Prop
  | .getBucket _ key, o, r => (o key).isSome → ∃ rs, r = Except.ok rs
  | _, _, _ => True

/-- An archive store that keeps its objects, whose reads are answered; uploads may fail. -/
def KeepsReadable (objectKey : BucketId → Option ℕ → List Record → String) (q : ArchiveRequest)
    (o : Objects) (r : q.Reply) (o' : Objects) : Prop :=
  KeepsObjects objectKey q o r o' ∧ ReadsObjects q o r

/-- The store, next to an archive store that keeps its objects.  Reads that fail are steps of the
client (`Scan.Attempt`). -/
def tiers (objectKey : BucketId → Option ℕ → List Record → String) : Services :=
  .of Serves (KeepsReadable objectKey)

/-! ### The tiers -/

theorem admissible_true : Admissible fun _ => True := ⟨fun _ => trivial, fun _ _ => trivial⟩

/-- The tables, with nothing kept besides them. -/
def tablesTier : StoreTier fun _ => True where
  State := Db
  db := id
  Inv _ := True
  serve := Serves
  tables _ hs := ⟨hs, trivial⟩
  discovers _ _ _ _ _ := trivial
  reads b range after limit db := ⟨_, _, .exec (Sample.env "") (.readRange b range after limit) db⟩

section Objects

variable {objectKey : BucketId → Option ℕ → List Record → String} {o o' : Objects} {b : BucketId}
  {key : String}

/-- What a read of an archive store that keeps its objects answers. -/
theorem getBucket_kept {r : Except StoreError (List Record)}
    (h : KeepsReadable objectKey (.getBucket b key) o r o') :
    o' = o ∧ ∀ rs, o key = some rs → r = .ok rs := by
  obtain ⟨hkeeps, hreads⟩ := h
  cases hkeeps with
  | getBucket hobject =>
      refine ⟨rfl, fun rs hrs => ?_⟩
      rw [hobject] at hrs
      cases hrs
      rfl
  | failed =>
      refine ⟨rfl, fun rs hrs => ?_⟩
      obtain ⟨_, hok⟩ := hreads (by rw [hrs]; rfl)
      cases hok

theorem exists_getBucket (b : BucketId) (key : String) (o : Objects) :
    ∃ r o', KeepsReadable objectKey (.getBucket b key) o r o' := by
  cases hobject : o key with
  | some rs => exact ⟨_, o, .getBucket hobject, fun _ => ⟨rs, rfl⟩⟩
  | none =>
      refine ⟨.error (.other ""), o, .failed, fun hsome => ?_⟩
      rw [hobject] at hsome
      cases hsome

end Objects

/-- An archive store that keeps its objects. -/
def objectsTier (objectKey : BucketId → Option ℕ → List Record → String) :
    ArchiveTier (fun _ => True) objectKey where
  State := Objects
  serve := KeepsReadable objectKey
  Keeps o kept := o = kept
  put h _ _ hs := ⟨_, h ▸ hs.1, rfl⟩
  get h hs := ⟨(getBucket_kept hs).1.trans h, fun _ _ rs hrs => (getBucket_kept hs).2 rs (h ▸ hrs)⟩
  reads := exists_getBucket

/-- **Paging is complete and duplicate-free over the tables, too.**  From every state that appends
and archival can reach, over every run that goes on, a client that pages through a range is given
records once each and in strictly increasing order, whichever of its reads fail, and every record
that was there before the first page once it is done, which takes boundedly many steps, if and only
if the range ends at or before the horizon of the table's strategy.  The range and the records are
in whole microseconds; the keys need not be fresh. -/
theorem paging_delivers_iff {objectKey : BucketId → Option ℕ → List Record → String}
    (hkey : ∀ {b b' g g' rs rs'}, objectKey b (some g) rs = objectKey b' (some g') rs' →
      refOf b = refOf b' ∧ g = g')
    {table : DurableTable} {query : Query} {s₀ : System (tiers objectKey).State}
    (hreach : System.Reaches (tiers objectKey) (fun _ => True)
      (.init (Db.empty, fun _ => none)) s₀)
    (hwhole : WholeTimes s₀) (hlen : s₀.appenders.length < 2 ^ 63)
    (hr : query.range.start < query.range.endAt) (hl : 0 < query.limit)
    (hlimit : query.limit ≤ usizeMax) (hstart : query.range.start.Whole)
    (hend : query.range.endAt.Whole) :
    (∀ {l : List Scan.Turn} {s : System (tiers objectKey).State} {scan : Scan},
      Run (Scan.Attempt (tiers objectKey) (fun _ => True) table query) (s₀, .start) l (s, scan) →
        WholeTimes s → s.appenders.length < 2 ^ 63 →
        scan.Withstands (fun _ => True) table query s₀ l s) ↔
      query.range.endAt ≤ table.definition.horizon := by
  have hempty : EmptyTiers (T := tablesTier) (A := objectsTier objectKey)
      (Db.empty, fun _ => none) := ⟨trivial, rfl, rfl⟩
  exact tiers_deliver_iff hkey admissible_true hempty hreach hwhole hlen hr hl hlimit hstart hend

namespace Sample

theorem keeps_keep (q : ArchiveRequest) (o : Objects) :
    KeepsReadable keyText q o (keep q o).1 (keep q o).2 := by
  refine ⟨keepsObjects_keep q o, ?_⟩
  cases q with
  | putBucket => trivial
  | putBucketGeneration => trivial
  | getBucket b key =>
      intro hsome
      obtain ⟨rs, hrs⟩ := Option.isSome_iff_exists.mp hsome
      refine ⟨rs, ?_⟩
      change (o key).elim _ _ = _
      rw [hrs]
      rfl

end Sample

/-- An append, the cutover of its bucket, an append to the next bucket, and the range of both. -/
theorem paging_delivers_of_cutover :
    ∃ s₀ : System (tiers Sample.keyText).State,
      (∃ t ∈ s₀.workers, ∃ o, t.phase = .finished (.archived (.ok o))) ∧
      s₀.appenders = [Sample.acknowledged Pulpitum.Sample.nextBucket Pulpitum.Sample.nextRecord,
        Sample.acknowledged Pulpitum.Sample.bucket Pulpitum.Sample.record] ∧
      ∀ {l : List Scan.Turn} {s : System (tiers Sample.keyText).State} {scan : Scan},
        Run (Scan.Attempt (tiers Sample.keyText) (fun _ => True) Pulpitum.Sample.table
          Sample.query) (s₀, .start) l (s, scan) →
        WholeTimes s → s.appenders.length < 2 ^ 63 →
        scan.Withstands (fun _ => True) Pulpitum.Sample.table Sample.query s₀ l s := by
  obtain ⟨t, ht, hrun⟩ := Sample.reaches_archived Sample.keeps_keep Pulpitum.Sample.routes_record
  have hrun := hrun.trans (System.reaches_append Pulpitum.Sample.routes_nextRecord
    (Sample.serve_answer Sample.keeps_keep _ _))
  have hlen : 2 < 2 ^ 63 := by decide
  refine ⟨_, ⟨t, List.mem_cons_self .., ht⟩, rfl, (paging_delivers_iff Sample.keyText_inj hrun ?_
    hlen (by decide) (by decide) (by decide) (by decide) (by decide)).mpr (by decide)⟩
  intro a ha _
  rcases List.mem_pair.mp ha with rfl | rfl <;> decide

end Cockroach
end Pulpitum
