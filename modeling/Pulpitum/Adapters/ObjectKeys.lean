import Mathlib
import Pulpitum.Ports.InMemoryArchive
import Pulpitum.Adapters.OpenDal

/-!
# Adapters — Object keys

The keys that the archive stores write under.  OpenDAL drops the empty segments of a path, so that
two keys name one object if they have the same segments (`normalizePath`); the segment of a
partition can be empty.  The in-memory store writes the table into its keys as it is, with the
slashes in it.

* `segments_contentKey`: the segments of a key of `OpenDalArchiveStore`.
* `objectKey_inj`: **a key names one bucket and one generation**, in both stores.
-/

namespace Pulpitum
open Text

/-! ### Paths -/

namespace OpenDal

/-- The path of an object as OpenDAL uses it. -/
def normalizePath (key : String) : String := String.ofList (collapse '/' key.toList)

/-- The segment of a name that is not blank. -/
theorem hexDigits_ne_nil {s : String} (h : isBlank s = false) : hexDigits (utf8 s) ≠ [] := by
  intro hnil
  have hs : s = "" := utf8_injective (hexDigits_injective (hnil.trans rfl))
  rw [hs] at h
  cases h

/-- The segment of a generation, if there is one. -/
def generationSegment : Option ℕ → List (List Char)
  | some generation => ["generation-".toList ++ (toString generation).toList]
  | none => []

/-- The name of a generation is not hexadecimal. -/
theorem generation_ne_hexDigits (n : ℕ) (bs : List Byte) :
    "generation-".toList ++ (toString n).toList ≠ hexDigits bs := by
  intro h
  have hg : 'g' ∈ hexDigits bs := h ▸ by simp
  obtain ⟨d, hd⟩ := mem_hexDigits hg
  exact absurd hd (by revert d; decide)

variable {store : OpenDalArchiveStore} {b b' : BucketId} {g g' : Option ℕ}

/-- The segments of a bucket in an object key: the one of its partition may be empty. -/
def bucketSegments (b : BucketId) : List (List Char) :=
  hexDigits (utf8 b.tableId.asStr) ::
    ([hexDigits b.partitionKey].filter (· ≠ []) ++ [hexDigits (utf8 b.key.asStr)])

theorem segments_bucketPrefix : segments '/' (store.bucketPrefix b).toList =
    segments '/' store.keyPrefix.toList ++ bucketSegments b := by
  have hpath : (store.bucketPrefix b).toList =
      ((store.keyPrefix.toList ++ '/' :: hexDigits (utf8 b.tableId.asStr)) ++
        '/' :: hexDigits b.partitionKey) ++ '/' :: hexDigits (utf8 b.key.asStr) := by
    simp [OpenDalArchiveStore.bucketPrefix, toList_hexEncode]
  rw [hpath, segments_append, segments_append, segments_append,
    segments_singleton (slash_notMem_hexDigits _) (hexDigits_ne_nil b.tableId.not_blank),
    segments_singleton (slash_notMem_hexDigits _) (hexDigits_ne_nil b.key.not_blank),
    segments_of_notMem (slash_notMem_hexDigits _)]
  simp [bucketSegments]

theorem segments_objectDirectory : segments '/' (store.objectDirectory b g).toList =
    segments '/' store.keyPrefix.toList ++ (bucketSegments b ++ generationSegment g) := by
  cases g with
  | none => simp [OpenDalArchiveStore.objectDirectory, segments_bucketPrefix, generationSegment]
  | some n =>
      have hpath : (store.objectDirectory b (some n)).toList =
          (store.bucketPrefix b).toList ++
            '/' :: ("generation-".toList ++ (toString n).toList) := by
        simp [OpenDalArchiveStore.objectDirectory]
      rw [hpath, segments_append,
        segments_singleton (InMemoryArchive.slash_notMem_generation n) (by simp),
        segments_bucketPrefix]
      simp [generationSegment]

/-- The segments of a key of the store. -/
theorem segments_contentKey {name : List Char} (hn : '/' ∉ name) (hne : name ≠ []) :
    segments '/' ((store.objectDirectory b g).toList ++ '/' :: name) =
      segments '/' store.keyPrefix.toList ++
        (bucketSegments b ++ (generationSegment g ++ [name])) := by
  rw [segments_append, segments_singleton hn hne, segments_objectDirectory]
  simp

/-- A generation is not mistaken for the bucket key before it. -/
theorem generationSegment_inj {l l' : List (List Char)} {bs bs' : List Byte}
    (h : (l ++ [hexDigits bs]) ++ generationSegment g =
      (l' ++ [hexDigits bs']) ++ generationSegment g') : l = l' ∧ bs = bs' ∧ g = g' := by
  have key : ∀ {l l' : List (List Char)}, l ++ [hexDigits bs] = l' ++ [hexDigits bs'] →
      l = l' ∧ bs = bs' := by
    intro l l' h
    obtain ⟨hl, hk⟩ := List.append_inj' h rfl
    exact ⟨hl, hexDigits_injective (List.singleton_inj.mp hk)⟩
  cases g with
  | none =>
      cases g' with
      | none =>
          obtain ⟨hl, hk⟩ := key (by simpa [generationSegment] using h)
          exact ⟨hl, hk, rfl⟩
      | some n =>
          rw [show generationSegment none = [] from rfl, List.append_nil] at h
          obtain ⟨-, hlast⟩ := List.append_inj' h rfl
          exact absurd (List.singleton_inj.mp hlast).symm (generation_ne_hexDigits n bs)
  | some n =>
      cases g' with
      | none =>
          rw [show generationSegment none = [] from rfl, List.append_nil] at h
          obtain ⟨-, hlast⟩ := List.append_inj' h rfl
          exact absurd (List.singleton_inj.mp hlast) (generation_ne_hexDigits n bs')
      | some n' =>
          obtain ⟨hdir, hlast⟩ := List.append_inj' h rfl
          obtain ⟨hl, hk⟩ := key hdir
          have hn := List.append_cancel_left (List.singleton_inj.mp hlast)
          exact ⟨hl, hk, congrArg some (Nat.repr_inj.mp (String.toList_injective hn))⟩

/-- **The segments of a bucket and a generation determine both**, also where the segment of the
partition is missing. -/
theorem segments_inj
    (h : bucketSegments b ++ generationSegment g = bucketSegments b' ++ generationSegment g') :
    b.tableId = b'.tableId ∧ b.partitionKey = b'.partitionKey ∧ b.key = b'.key ∧ g = g' := by
  obtain ⟨ht, h⟩ := List.cons.inj h
  obtain ⟨hp, hk, hg⟩ := generationSegment_inj h
  refine ⟨TableId.ext (utf8_injective (hexDigits_injective ht)), hexDigits_injective ?_,
    BucketKey.ext (utf8_injective hk), hg⟩
  have hflat := congrArg List.flatten hp
  rwa [List.flatten_filter_ne_nil, List.flatten_filter_ne_nil, List.flatten_singleton,
    List.flatten_singleton] at hflat

/-- Two keys of the store that OpenDAL takes for one have the same file name, the same bucket and
the same generation. -/
theorem contentKey_inj {name name' : List Char} (hn : '/' ∉ name) (hne : name ≠ [])
    (hn' : '/' ∉ name') (hne' : name' ≠ [])
    (h : collapse '/' ((store.objectDirectory b g).toList ++ '/' :: name) =
      collapse '/' ((store.objectDirectory b' g').toList ++ '/' :: name')) :
    (b.tableId = b'.tableId ∧ b.partitionKey = b'.partitionKey ∧ b.key = b'.key ∧ g = g') ∧
      name = name' := by
  have hseg := segments_of_collapse (by simp [segments_contentKey hn hne])
    (by simp [segments_contentKey hn' hne']) h
  rw [segments_contentKey hn hne, segments_contentKey hn' hne'] at hseg
  have hseg := List.append_cancel_left hseg
  rw [← List.append_assoc, ← List.append_assoc] at hseg
  obtain ⟨hdir, hname⟩ := List.append_inj' hseg rfl
  exact ⟨segments_inj hdir, List.singleton_inj.mp hname⟩

/-! ### Payloads and manifests -/

/-- The file name of a payload. -/
def payloadName (store : OpenDalArchiveStore) (digest : List Byte) : String :=
  "records-" ++ hexEncode digest ++ "." ++ store.format.extension

/-- The file name of a manifest. -/
def manifestName (digest : List Byte) : String := "manifest-" ++ hexEncode digest ++ ".json"

theorem slash_notMem_payloadName (digest : List Byte) :
    '/' ∉ (payloadName store digest).toList := by
  have hext : '/' ∉ store.format.extension.toList := by cases store.format <;> decide
  simp only [payloadName, String.toList_append, List.mem_append, not_or, toList_hexEncode]
  exact ⟨⟨⟨by decide, slash_notMem_hexDigits _⟩, by decide⟩, hext⟩

theorem slash_notMem_manifestName (digest : List Byte) : '/' ∉ (manifestName digest).toList := by
  simp only [manifestName, String.toList_append, List.mem_append, not_or, toList_hexEncode]
  exact ⟨⟨by decide, slash_notMem_hexDigits _⟩, by decide⟩

theorem payloadName_ne_manifestName (digest digest' : List Byte) :
    (payloadName store digest).toList ≠ (manifestName digest').toList := by
  simp [payloadName, manifestName]

theorem payloadName_inj {digest digest' : List Byte}
    (h : (payloadName store digest).toList = (payloadName store digest').toList) :
    digest = digest' := by
  simp only [payloadName, String.toList_append, List.append_assoc] at h
  have h := List.append_cancel_right (List.append_cancel_left h)
  exact hexEncode_injective (String.toList_injective h)

theorem manifestName_inj {digest digest' : List Byte}
    (h : (manifestName digest).toList = (manifestName digest').toList) : digest = digest' := by
  simp only [manifestName, String.toList_append, List.append_assoc] at h
  have h := List.append_cancel_right (List.append_cancel_left h)
  exact hexEncode_injective (String.toList_injective h)

theorem toList_contentPayloadKey (digest : List Byte) :
    (store.contentPayloadKey b g (hexEncode digest)).toList =
      (store.objectDirectory b g).toList ++ '/' :: (payloadName store digest).toList := by
  simp [OpenDalArchiveStore.contentPayloadKey, payloadName]

theorem toList_contentManifestKey (digest : List Byte) :
    (store.contentManifestKey b g (hexEncode digest)).toList =
      (store.objectDirectory b g).toList ++ '/' :: (manifestName digest).toList := by
  simp [OpenDalArchiveStore.contentManifestKey, manifestName]

/-- Keys of payloads. -/
theorem contentPayloadKey_inj {digest digest' : List Byte}
    (h : normalizePath (store.contentPayloadKey b g (hexEncode digest)) =
      normalizePath (store.contentPayloadKey b' g' (hexEncode digest'))) :
    (b.tableId = b'.tableId ∧ b.partitionKey = b'.partitionKey ∧ b.key = b'.key ∧ g = g') ∧
      digest = digest' := by
  have h := String.ofList_injective h
  rw [toList_contentPayloadKey, toList_contentPayloadKey] at h
  obtain ⟨hb, hname⟩ := contentKey_inj (slash_notMem_payloadName digest) (by simp [payloadName])
    (slash_notMem_payloadName digest') (by simp [payloadName]) h
  exact ⟨hb, payloadName_inj hname⟩

/-- Keys of manifests. -/
theorem contentManifestKey_inj {digest digest' : List Byte}
    (h : normalizePath (store.contentManifestKey b g (hexEncode digest)) =
      normalizePath (store.contentManifestKey b' g' (hexEncode digest'))) :
    (b.tableId = b'.tableId ∧ b.partitionKey = b'.partitionKey ∧ b.key = b'.key ∧ g = g') ∧
      digest = digest' := by
  have h := String.ofList_injective h
  rw [toList_contentManifestKey, toList_contentManifestKey] at h
  obtain ⟨hb, hname⟩ := contentKey_inj (slash_notMem_manifestName digest) (by simp [manifestName])
    (slash_notMem_manifestName digest') (by simp [manifestName]) h
  exact ⟨hb, manifestName_inj hname⟩

theorem contentPayloadKey_ne_contentManifestKey (digest digest' : List Byte) :
    normalizePath (store.contentPayloadKey b g (hexEncode digest)) ≠
      normalizePath (store.contentManifestKey b' g' (hexEncode digest')) := by
  intro h
  have h := String.ofList_injective h
  rw [toList_contentPayloadKey, toList_contentManifestKey] at h
  obtain ⟨-, hname⟩ := contentKey_inj (slash_notMem_payloadName digest) (by simp [payloadName])
    (slash_notMem_manifestName digest') (by simp [manifestName]) h
  exact payloadName_ne_manifestName digest digest' hname

/-! ### What a write touches -/

variable {lib : Libraries}

theorem Fate.written_of_ne {fate : Fate} {key key' : String} {body : List Byte} {o : Blobs}
    (h : key' ≠ key) : fate.written key body o key' = o key' := by
  have absent : writeIfNotExists key body o key' = o key' := by
    unfold writeIfNotExists
    split
    · exact Function.update_of_ne h _ _
    · rfl
  rcases hw : fate.write with _ | ⟨e, _ | _⟩ <;> simp [Fate.written, hw, absent]

theorem createObjectVerified_of_ne {fate : Fate} {key key' : String} {body : List Byte}
    {o o' : Blobs} {r : Except StoreError (List Byte)} (h : key' ≠ key)
    (hw : createObjectVerified lib fate key body o = (r, o')) : o' key' = o key' := by
  rw [← (Prod.mk.inj hw).2]
  exact Fate.written_of_ne h

/-- `write_records` writes to the payload and the manifest of its own bucket and generation. -/
theorem writeRecords_others {onPayload onManifest : Fate} {records : List Record} {o : Blobs}
    {key : String}
    (hpayload : ∀ digest, key ≠ store.contentPayloadKey b g (hexEncode digest))
    (hmanifest : ∀ digest, key ≠ store.contentManifestKey b g (hexEncode digest)) :
    (writeRecords lib store onPayload onManifest b g records o).2 key = o key := by
  unfold writeRecords
  split
  · rfl
  · rename_i payload manifest body manifestKey hprep
    obtain ⟨-, -, rfl, rfl⟩ := prepare_eq_ok hprep
    have hpayload := hpayload (lib.digest payload)
    have hmanifest := hmanifest (lib.digest body)
    split
    · rename_i o₁ hw
      exact createObjectVerified_of_ne hpayload hw
    · rename_i uploaded o₁ hw
      have h₁ := createObjectVerified_of_ne hpayload hw
      split
      · exact h₁
      · split
        · rename_i o₂ hw₂
          exact (createObjectVerified_of_ne hmanifest hw₂).trans h₁
        · rename_i o₂ hw₂
          exact (createObjectVerified_of_ne hmanifest hw₂).trans h₁

end OpenDal

/-! ### Both stores -/

open OpenDal InMemoryArchive in
/-- **A key names one bucket and one generation.**  Of two keys that `OpenDalArchiveStore` makes
for canonical buckets, and that OpenDAL takes for one, the bucket, the generation and the digest
are equal, and none is the key of a payload and the other that of a manifest.  The keys of
`InMemoryArchiveStore` are equal only for one bucket, and for one generation or none.  So a worker
writes to no object of another bucket or of another generation. -/
theorem objectKey_inj {b b' : BucketId} (hb : b.Canonical) (hb' : b'.Canonical) :
    (∀ (store : OpenDalArchiveStore) (g g' : Option ℕ) (digest digest' : List Byte),
      (normalizePath (store.contentPayloadKey b g (hexEncode digest)) =
          normalizePath (store.contentPayloadKey b' g' (hexEncode digest')) →
        b = b' ∧ g = g' ∧ digest = digest') ∧
      (normalizePath (store.contentManifestKey b g (hexEncode digest)) =
          normalizePath (store.contentManifestKey b' g' (hexEncode digest')) →
        b = b' ∧ g = g' ∧ digest = digest') ∧
      normalizePath (store.contentPayloadKey b g (hexEncode digest)) ≠
        normalizePath (store.contentManifestKey b' g' (hexEncode digest')) ∧
      ((b, g) ≠ (b', g') → ∀ lib onPayload onManifest records o,
        let o' := (writeRecords lib store onPayload onManifest b g records o).2
        o' (store.contentPayloadKey b' g' (hexEncode digest')) =
            o (store.contentPayloadKey b' g' (hexEncode digest')) ∧
          o' (store.contentManifestKey b' g' (hexEncode digest')) =
            o (store.contentManifestKey b' g' (hexEncode digest')))) ∧
      (bucketKey b = bucketKey b' → b = b') ∧
      (∀ g g', generationKey b g = generationKey b' g' → b = b' ∧ g = g') ∧
      (∀ g, bucketKey b ≠ generationKey b' g) ∧
      ∀ g g' records o, (b, g) ≠ (b', g') →
        (InMemoryArchive.exec (.putBucketGeneration b g records) o).2 (generationKey b' g') =
          o (generationKey b' g') := by
  have payload : ∀ {store : OpenDalArchiveStore} {g g' : Option ℕ} {digest digest' : List Byte},
      normalizePath (store.contentPayloadKey b g (hexEncode digest)) =
        normalizePath (store.contentPayloadKey b' g' (hexEncode digest')) →
      b = b' ∧ g = g' ∧ digest = digest' := by
    intro store g g' digest digest' h
    obtain ⟨⟨ht, hp, hk, hg⟩, hd⟩ := contentPayloadKey_inj h
    exact ⟨hb.eq_of_key hb' ht hp hk, hg, hd⟩
  have manifest : ∀ {store : OpenDalArchiveStore} {g g' : Option ℕ} {digest digest' : List Byte},
      normalizePath (store.contentManifestKey b g (hexEncode digest)) =
        normalizePath (store.contentManifestKey b' g' (hexEncode digest')) →
      b = b' ∧ g = g' ∧ digest = digest' := by
    intro store g g' digest digest' h
    obtain ⟨⟨ht, hp, hk, hg⟩, hd⟩ := contentManifestKey_inj h
    exact ⟨hb.eq_of_key hb' ht hp hk, hg, hd⟩
  refine ⟨fun store g g' digest digest' => ⟨payload, manifest,
    contentPayloadKey_ne_contentManifestKey digest digest', ?_⟩, bucketKey_inj hb hb',
    fun g g' => generationKey_inj hb hb', fun g => bucketKey_ne_generationKey hb g, ?_⟩
  · intro hne lib onPayload onManifest records o
    refine ⟨writeRecords_others (fun d h => hne ?_) (fun d h => ?_),
      writeRecords_others (fun d h => ?_) (fun d h => hne ?_)⟩
    · obtain ⟨rfl, rfl, -⟩ := payload (congrArg normalizePath h).symm
      rfl
    · exact contentPayloadKey_ne_contentManifestKey digest' d (congrArg normalizePath h)
    · exact contentPayloadKey_ne_contentManifestKey d digest' (congrArg normalizePath h).symm
    · obtain ⟨rfl, rfl, -⟩ := manifest (congrArg normalizePath h).symm
      rfl
  · intro g g' records o hne
    refine Function.update_of_ne (fun h => hne ?_) _ _
    obtain ⟨rfl, rfl⟩ := generationKey_inj hb hb' h.symm
    rfl

/-- The bucket of the sample in the partition with the empty key. -/
def Sample.emptyPartition : BucketId := { Sample.bucket with partitionKey := [] }

open OpenDal InMemoryArchive in
/-- A generation in the partition with the empty key, and a bucket in another partition. -/
theorem objectKey_inj_of_emptyPartition :
    normalizePath ((⟨"archives", .json⟩ : OpenDalArchiveStore).contentPayloadKey
        Sample.emptyPartition (some 7) (hexEncode [0])) ≠
      normalizePath ((⟨"archives", .json⟩ : OpenDalArchiveStore).contentPayloadKey
        Sample.bucket none (hexEncode [0])) ∧
      bucketKey Sample.emptyPartition ≠ generationKey Sample.bucket 7 := by
  have hempty : Sample.emptyPartition.Canonical := ⟨Sample.record.eventTime, rfl⟩
  have hbucket : Sample.bucket.Canonical := ⟨Sample.record.eventTime, rfl⟩
  obtain ⟨hkeys, -, -, hbare, -⟩ := objectKey_inj hempty hbucket
  refine ⟨fun h => ?_, hbare 7⟩
  obtain ⟨-, hg, -⟩ := (hkeys _ (some 7) none [0] [0]).1 h
  cases hg

end Pulpitum
