import Mathlib
import Pulpitum.Adapters.OpenDal

/-!
# Adapters — OpenDAL integrity

`get_bucket` against an object store that anyone may change at any time.  It reads two objects,
the manifest under the published key and the payload under the key the manifest names, and the
store may be another one at each read.

* `manifest_of_getBucketAt`: the key fixes the bytes of the manifest.
* `payload_of_getBucketAt`: the manifest fixes the bucket and the bytes of the payload.
* `tamper_evident`: **a published key reads back as the payload that was uploaded, or not at
  all**, and only for its bucket.
-/

namespace Pulpitum.OpenDal
open Text Fallible

section

variable (lib : Libraries)

/-- No two of the byte strings have the same SHA-256. -/
def CollisionFree (bytes : Set (List Byte)) : Prop := Set.InjOn lib.digest bytes

end

section

variable {lib : Libraries} {store : OpenDalArchiveStore} {bucket : BucketId}
  {generation : Option ℕ} {records : List Record} {payload body : List Byte}
  {manifest : ArchiveManifest} {key : String} {m m' : Moment}

theorem CollisionFree.eq_of_sha256 {bytes : Set (List Byte)} (h : CollisionFree lib bytes)
    {x y : List Byte} (hx : x ∈ bytes) (hy : y ∈ bytes) (e : sha256 lib x = sha256 lib y) :
    x = y :=
  h hx hy (hexEncode_injective e)

/-- **The key fixes the manifest**: a read that succeeds found the bytes whose checksum the key
carries. -/
theorem manifest_of_getBucketAt (hl : lib.Lawful) {b : BucketId} {rs : List Record}
    (h : getBucketAt lib m m' b (store.contentManifestKey bucket generation (sha256 lib body)) =
      .ok rs) :
    ∃ object read,
      m.objects (store.contentManifestKey bucket generation (sha256 lib body)) = some object ∧
      sha256 lib object = sha256 lib body ∧ parseManifest lib object = .ok read ∧
      readManifestRecordsAt lib m' b read = .ok rs := by
  obtain ⟨object, hobject, h⟩ := ok_of_bind h
  rw [manifestDigest_contentManifestKey hl, ok_bind] at h
  obtain ⟨⟨⟩, hdigest, h⟩ := ok_of_bind h
  obtain ⟨read, hparse, h⟩ := ok_of_bind h
  exact ⟨object, read, readObject_eq_ok hobject, require_eq_ok.mp hdigest, hparse, h⟩

/-- **The manifest fixes the bucket and the payload.** -/
theorem payload_of_getBucketAt {b : BucketId} {rs : List Record}
    (h : readManifestRecordsAt lib m' b manifest = .ok rs) :
    manifest.bucket = b ∧ ∃ object, m'.objects manifest.payloadKey = some object ∧
      sha256 lib object = manifest.sha256 ∧ manifest.format.deserialize lib object = .ok rs := by
  obtain ⟨⟨⟩, -, h⟩ := ok_of_bind h
  obtain ⟨⟨⟩, hbucket, h⟩ := ok_of_bind h
  obtain ⟨object, hobject, h⟩ := ok_of_bind h
  obtain ⟨⟨⟩, hverify, h⟩ := ok_of_bind h
  obtain ⟨⟨⟩, -, hdigest⟩ := ok_of_bind hverify
  obtain ⟨decoded, hdecode, h⟩ := ok_of_bind h
  obtain ⟨⟨⟩, -, h⟩ := ok_of_bind h
  obtain ⟨⟨⟩, -, h⟩ := ok_of_bind h
  cases h
  exact ⟨require_eq_ok.mp hbucket, object, readObject_eq_ok hobject, require_eq_ok.mp hdigest,
    hdecode⟩

/-- A read that succeeds is of the bucket that was written, and decodes the payload that was
uploaded. -/
theorem getBucketAt_published (hl : lib.Lawful) {onPayload onManifest : Fate} {o o' : Blobs}
    (hput : writeRecords lib store onPayload onManifest bucket generation records o =
      (.ok key, o'))
    (hprepare : prepare lib store bucket generation records = .ok (payload, manifest, body, key))
    (hfree : CollisionFree lib
      ({payload, body} ∪ {x | ∃ k, m.objects k = some x ∨ m'.objects k = some x}))
    {b : BucketId} {rs : List Record} (h : getBucketAt lib m m' b key = .ok rs) :
    b = bucket ∧ store.format.deserialize lib payload = .ok rs := by
  obtain ⟨-, -, hmanifest, hkey⟩ := prepare_eq_ok hprepare
  -- the manifest that was uploaded parses as the one that was meant
  have hparsed : parseManifest lib body = .ok manifest := by
    obtain ⟨_, _, _, hprepare', -, -, -, hcheck⟩ := writeRecords_eq_ok hput
    cases hprepare.symm.trans hprepare'
    obtain ⟨verified, hparse, hcheck⟩ := ok_of_bind hcheck
    obtain ⟨⟨⟩, -, hcheck⟩ := ok_of_bind hcheck
    rw [hparse, require_eq_ok.mp hcheck]
  subst hkey
  obtain ⟨object, read, hobject, hsame, hparse, hread⟩ := manifest_of_getBucketAt hl h
  obtain rfl : object = body :=
    hfree.eq_of_sha256 (.inr ⟨_, .inl hobject⟩) (.inl (.inr rfl)) hsame
  obtain rfl : read = manifest := Except.ok.inj (hparse.symm.trans hparsed)
  obtain ⟨hbucket, found, hfound, hdigest, hdecode⟩ := payload_of_getBucketAt hread
  rw [hmanifest] at hbucket hdigest hdecode
  obtain rfl : found = payload :=
    hfree.eq_of_sha256 (.inr ⟨_, .inr hfound⟩) (.inl (.inl rfl)) hdigest
  exact ⟨hbucket.symm, hdecode⟩

/-- **Archive reads are tamper-evident.**  Whatever has become of the object store at either read,
a published key gives an error or the records decoded from the payload that was uploaded, and an
error for every other bucket. -/
theorem tamper_evident (hl : lib.Lawful) {onPayload onManifest : Fate} {o o' : Blobs}
    (hput : writeRecords lib store onPayload onManifest bucket generation records o =
      (.ok key, o'))
    (hprepare : prepare lib store bucket generation records = .ok (payload, manifest, body, key))
    (hfree : CollisionFree lib
      ({payload, body} ∪ {x | ∃ k, m.objects k = some x ∨ m'.objects k = some x})) :
    ((∃ e, getBucketAt lib m m' bucket key = .error e) ∨
      ∃ rs, getBucketAt lib m m' bucket key = .ok rs ∧
        store.format.deserialize lib payload = .ok rs) ∧
    ∀ other, other ≠ bucket → ∃ e, getBucketAt lib m m' other key = .error e := by
  constructor
  · cases h : getBucketAt lib m m' bucket key with
    | error e => exact .inl ⟨e, rfl⟩
    | ok rs => exact .inr ⟨rs, rfl, (getBucketAt_published hl hput hprepare hfree h).2⟩
  · intro other hne
    cases h : getBucketAt lib m m' other key with
    | error e => exact ⟨e, rfl⟩
    | ok rs => exact absurd (getBucketAt_published hl hput hprepare hfree h).1 hne

end

namespace Sample

/-- The texts of the table have different checksums. -/
theorem collisionFree : CollisionFree libraries {x | ∃ e ∈ digests, utf8 e.1 = x} := by
  have hnodup : (digests.map Prod.snd).Nodup := by decide
  rintro _ ⟨e, he, rfl⟩ _ ⟨e', he', rfl⟩ h
  have hsame : e.2 = e'.2 := by
    rw [← digest_of_mem he, ← digest_of_mem he']
    exact h
  rw [List.inj_on_of_nodup_map hnodup he he' hsame]

end Sample

/-- A written bucket whose objects were all replaced by an empty list. -/
theorem tamper_evident_of_replaced : ∃ key o' payload manifest body,
    writeRecords Sample.libraries (Sample.store .json) .fine .fine
      Pulpitum.Sample.bucket (some 1) [Pulpitum.Sample.record] (fun _ => none) = (.ok key, o') ∧
    prepare Sample.libraries (Sample.store .json)
      Pulpitum.Sample.bucket (some 1) [Pulpitum.Sample.record] =
        .ok (payload, manifest, body, key) ∧
    (((∃ e, getBucketAt Sample.libraries ⟨none, fun _ => some Sample.emptyJson⟩
        ⟨none, fun _ => some Sample.emptyJson⟩ Pulpitum.Sample.bucket key = .error e) ∨
      ∃ rs, getBucketAt Sample.libraries ⟨none, fun _ => some Sample.emptyJson⟩
          ⟨none, fun _ => some Sample.emptyJson⟩ Pulpitum.Sample.bucket key = .ok rs ∧
        (Sample.store .json).format.deserialize Sample.libraries payload = .ok rs) ∧
    ∀ other, other ≠ Pulpitum.Sample.bucket →
      ∃ e, getBucketAt Sample.libraries ⟨none, fun _ => some Sample.emptyJson⟩
        ⟨none, fun _ => some Sample.emptyJson⟩ other key = .error e) := by
  obtain ⟨o', hput⟩ := Sample.exists_writeRecords Sample.prepare_record
  refine ⟨_, o', _, _, _, hput, Sample.prepare_record, ?_⟩
  refine tamper_evident Sample.libraries_lawful hput Sample.prepare_record ?_
  refine Sample.collisionFree.mono ?_
  have hempty : ("[]", Sample.emptySha) ∈ Sample.digests :=
    .tail _ (.tail _ (.tail _ (.tail _ (.head _))))
  rintro x (hx | ⟨k, h | h⟩)
  · rcases Set.mem_insert_iff.mp hx with hx | hx
    · exact ⟨_, Sample.payloadText_mem .json, hx.symm⟩
    · exact ⟨_, Sample.manifestText_mem .json, (Set.mem_singleton_iff.mp hx).symm⟩
  · exact ⟨_, hempty, Option.some.inj h⟩
  · exact ⟨_, hempty, Option.some.inj h⟩

end Pulpitum.OpenDal
