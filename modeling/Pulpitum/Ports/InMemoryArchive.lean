import Mathlib
import Pulpitum.Ports.Storage

/-!
# Ports — In-memory archive

`InMemoryArchiveStore`: one map from object keys to records behind one lock, so that an operation
is one step.

* `generationKey_inj`: **an object key names one bucket and one generation**, if the bucket is
  canonical; `bucketKey_ne_generationKey`: or one bucket without a generation.
* `getBucket_eq_ok`: an object whose records lie in the bucket is read as it was put.
-/

namespace Pulpitum
namespace InMemoryArchive

/-- The part of an object key that names the bucket. -/
def bucketPath (bucket : BucketId) : String :=
  "archives/" ++ bucket.tableId.asStr ++ "/" ++ Text.hexEncode bucket.partitionKey ++ "/" ++
    bucket.key.asStr

/-- The object key of `put_bucket`. -/
def bucketKey (bucket : BucketId) : String := bucketPath bucket ++ "/data.json"

/-- The object key of `put_bucket_generation`. -/
def generationKey (bucket : BucketId) (generation : ℕ) : String :=
  bucketPath bucket ++ "/generation-" ++ toString generation ++ "/data.json"

/-- `get_bucket`. -/
def getBucket (bucket : BucketId) (objectKey : String) (o : Objects) :
    Except StoreError (List Record) :=
  match o objectKey with
  | none => .error (.other ("archive object not found: " ++ objectKey))
  | some records =>
      if ∃ r ∈ records, r.partitionKey ≠ bucket.partitionKey ∨ ¬ bucket.contains r.eventTime then
        .error (.other "archive records do not match the requested bucket")
      else .ok records

/-- One operation of the store. -/
def exec : (q : ArchiveRequest) → Objects → q.Reply × Objects
  | .putBucket bucket records, o =>
      (.ok (bucketKey bucket), Function.update o (bucketKey bucket) (some records))
  | .putBucketGeneration bucket generation records, o =>
      (.ok (generationKey bucket generation),
        Function.update o (generationKey bucket generation) (some records))
  | .getBucket bucket objectKey, o => (getBucket bucket objectKey o, o)

/-! ### Keys -/

theorem bucketPath_inj {b b' : BucketId} (hb : b.Canonical) (hb' : b'.Canonical)
    (h : bucketPath b = bucketPath b') : b = b' := by
  have h : ("archives/".toList ++ b.tableId.asStr.toList) ++ '/' ::
        Text.hexDigits b.partitionKey ++ '/' :: b.key.asStr.toList =
      ("archives/".toList ++ b'.tableId.asStr.toList) ++ '/' ::
        Text.hexDigits b'.partitionKey ++ '/' :: b'.key.asStr.toList := by
    simpa [bucketPath, Text.toList_hexEncode] using congrArg String.toList h
  obtain ⟨h, hk⟩ := Text.sep_append_inj hb.slash_notMem_key hb'.slash_notMem_key h
  obtain ⟨h, hp⟩ := Text.sep_append_inj (Text.slash_notMem_hexDigits _)
    (Text.slash_notMem_hexDigits _) h
  exact hb.eq_of_key hb' (TableId.ext (String.toList_injective (List.append_cancel_left h)))
    (Text.hexDigits_injective hp) (BucketKey.ext (String.toList_injective hk))

/-- The component of a generation. -/
theorem slash_notMem_generation (n : ℕ) : '/' ∉ "generation-".toList ++ (toString n).toList := by
  intro hn
  rcases List.mem_append.mp hn with hn | hn
  · exact absurd hn (by decide)
  · exact absurd (Text.isDigit_of_mem_toString hn) (by decide)

/-- An object key is the path of a bucket with a generation. -/
theorem bucketPath_of_generationKey {b b' : BucketId} {g g' : ℕ}
    (h : generationKey b g = generationKey b' g') : bucketPath b = bucketPath b' ∧ g = g' := by
  -- the keys end alike, so the last components before that end are equal
  have h : (bucketPath b).toList ++ '/' :: ("generation-".toList ++ (toString g).toList) =
      (bucketPath b').toList ++ '/' :: ("generation-".toList ++ (toString g').toList) := by
    have h := congrArg String.toList h
    simp only [generationKey, String.toList_append] at h
    have h := List.append_cancel_right h
    simpa using h
  obtain ⟨hp, hg⟩ := Text.sep_append_inj (slash_notMem_generation g) (slash_notMem_generation g') h
  exact ⟨String.toList_injective hp,
    Nat.repr_inj.mp (String.toList_injective (List.append_cancel_left hg))⟩

/-- **An object key names one bucket and one generation.** -/
theorem generationKey_inj {b b' : BucketId} {g g' : ℕ} (hb : b.Canonical) (hb' : b'.Canonical)
    (h : generationKey b g = generationKey b' g') : b = b' ∧ g = g' := by
  obtain ⟨hp, hg⟩ := bucketPath_of_generationKey h
  exact ⟨bucketPath_inj hb hb' hp, hg⟩

theorem bucketKey_inj {b b' : BucketId} (hb : b.Canonical) (hb' : b'.Canonical)
    (h : bucketKey b = bucketKey b') : b = b' := by
  have h := congrArg String.toList h
  simp only [bucketKey, String.toList_append] at h
  exact bucketPath_inj hb hb' (String.toList_injective (List.append_cancel_right h))

/-- **A key without a generation is no key of a generation**: the last component of its path is
the key of a bucket. -/
theorem bucketKey_ne_generationKey {b b' : BucketId} (hb : b.Canonical) (g : ℕ) :
    bucketKey b ≠ generationKey b' g := by
  intro h
  have h : ("archives/".toList ++ b.tableId.asStr.toList ++ '/' ::
        Text.hexDigits b.partitionKey) ++ '/' :: b.key.asStr.toList =
      (bucketPath b').toList ++ '/' :: ("generation-".toList ++ (toString g).toList) := by
    have h := congrArg String.toList h
    simp only [bucketKey, generationKey, String.toList_append] at h
    have h := List.append_cancel_right h
    simpa [bucketPath, Text.toList_hexEncode] using h
  obtain ⟨-, hkey⟩ := Text.sep_append_inj hb.slash_notMem_key (slash_notMem_generation g) h
  have hcolon : ':' ∈ "generation-".toList ++ (toString g).toList := hkey ▸ hb.colon_mem_key
  rcases List.mem_append.mp hcolon with hc | hc
  · exact absurd hc (by decide)
  · exact absurd (Text.isDigit_of_mem_toString hc) (by decide)

/-! ### Reading -/

theorem getBucket_eq_ok {bucket : BucketId} {objectKey : String} {o : Objects}
    {records : List Record} (h : o objectKey = some records)
    (hin : ∀ r ∈ records, r.partitionKey = bucket.partitionKey ∧ bucket.contains r.eventTime) :
    getBucket bucket objectKey o = .ok records := by
  unfold getBucket
  rw [h]
  refine if_neg ?_
  rintro ⟨r, hr, hp | hc⟩
  · exact hp (hin r hr).1
  · exact hc (hin r hr).2

end InMemoryArchive
end Pulpitum
