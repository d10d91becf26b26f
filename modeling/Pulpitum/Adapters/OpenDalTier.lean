import Mathlib
import Pulpitum.Adapters.ObjectKeys
import Pulpitum.Adapters.OpenDalUploads
import Pulpitum.Adapters.Tiers

/-!
# Adapters — OpenDAL tier

`OpenDalArchiveStore` as the archive store below a table.  Any number of uploads are under way at
once, some of them abandoned; `put_bucket_generation` is one of them that has returned, and
`get_bucket` reads the manifest and the payload at two moments, with uploads in between.

* `getBucketAt_stored`: what an upload has stored is read back, in whole microseconds.
* `Returns.unique`: **reads of a bucket under a key return one record list**, in every run.
* `objectKeyOf_inj`: the key of an upload names its bucket and its generation.
* `openDalTier`: **the objects of uploads that returned can be read from then on.**
-/

namespace Pulpitum.OpenDal

open Text Fallible Cockroach

/-! ### What an upload has stored -/

/-- Both objects of the upload are stored, the manifest under the key. -/
def Upload.Stored (lib : Libraries) (u : Upload) (key : String) (o : Blobs) : Prop :=
  ∃ payload manifest body,
    prepare lib u.store u.bucket u.generation u.records = .ok (payload, manifest, body, key) ∧
      o manifest.payloadKey = some payload ∧ o key = some body

section

variable {lib : Libraries} {uploads : Set Upload} {u : Upload} {key : String} {o o' : Blobs}
  {c c' : UploadPool}

theorem Upload.Stored.mono (h : u.Stored lib key o)
    (hle : ∀ key x, o key = some x → o' key = some x) : u.Stored lib key o' := by
  obtain ⟨payload, manifest, body, hprepare, hpayload, hbody⟩ := h
  exact ⟨payload, manifest, body, hprepare, hle _ _ hpayload, hle _ _ hbody⟩

/-- **What is stored is read back**, also if more objects are there when the payload is read. -/
theorem getBucketAt_stored (hl : lib.Lawful) (he : lib.EncodesManifests uploads) (hu : u ∈ uploads)
    (hwhole : ∀ r ∈ u.records, ¬ r.eventTime.IsLeapSecond) (h : u.Stored lib key o)
    (hle : ∀ key x, o key = some x → o' key = some x) :
    getBucketAt lib ⟨none, o⟩ ⟨none, o'⟩ u.bucket key = .ok u.records := by
  obtain ⟨payload, manifest, body, hprepare, hpayload, hbody⟩ := h
  have hcp := checkPayload_prepared hl hprepare
  have hcm := checkManifest_prepared he hu hprepare
  obtain ⟨hrecords, hserialize, hmanifest, rfl⟩ := prepare_eq_ok hprepare
  obtain ⟨verified, hparse, hcm⟩ := ok_of_bind hcm
  obtain ⟨⟨⟩, hvalid, hcm⟩ := ok_of_bind hcm
  obtain rfl := require_eq_ok.mp hcm
  obtain ⟨⟨⟩, hverify, hcp⟩ := ok_of_bind hcp
  have decoded := ArchiveFormat.deserialize_serialize hl hserialize
  rw [(ArchiveFormat.map_readBack_eq_iff hserialize).mpr (.inr hwhole)] at decoded
  rw [decoded, ok_bind] at hcp
  have hformat : verified.format = u.store.format := by rw [hmanifest]; rfl
  have hbucket : verified.bucket = u.bucket := by rw [hmanifest]; rfl
  unfold getBucketAt
  rw [readObject_of_some hbody, ok_bind, manifestDigest_contentManifestKey hl, ok_bind]
  simp only [require_of, ok_bind, hparse]
  unfold readManifestRecordsAt
  rw [hvalid, ok_bind, require_of hbucket, ok_bind, readObject_of_some (hle _ _ hpayload), ok_bind,
    hverify, ok_bind, hformat, decoded, ok_bind, require_of (require_eq_ok.mp hcp), ok_bind,
    hrecords, ok_bind]
  rfl

/-- All objects are those of the uploads, and every upload is on its way to its outcome. -/
theorem keeps_of_uploads (hl : lib.Lawful) (he : lib.EncodesManifests uploads)
    (hfree : CollisionFree lib (involved lib uploads)) (hc : Uploads lib uploads .empty c) :
    c.shared.Own lib uploads ∧ ∀ p ∈ c.parties,
      p.rest.Keeps (discipline lib uploads) (known c.shared p.log) (Outcome lib p.name) := by
  have hown : Remote.Own lib uploads UploadPool.empty.shared :=
    ⟨fun _ _ h => (by cases h), List.forall_mem_nil _⟩
  exact (guarantee lib uploads).keeps (fun u hu => writeRecords_keeps hl he hfree hu)
    (fun _ _ => Outcome.mono) hown hc

/-- **An upload that returned a key has stored its objects.** -/
theorem stored_of_returned (hl : lib.Lawful) (he : lib.EncodesManifests uploads)
    (hfree : CollisionFree lib (involved lib uploads)) (hc : Uploads lib uploads .empty c) :
    ∀ p ∈ c.parties, ∀ key, p.rest = .ret (.ok key) → p.name.Stored lib key c.shared.objects := by
  obtain ⟨-, hkeeps⟩ := keeps_of_uploads hl he hfree hc
  intro p hp key hr
  have houtcome := hkeeps p hp
  rw [hr] at houtcome
  obtain ⟨payload, manifest, body, key', hprepare, hkey, hpayload, hbody⟩ | ⟨⟨e, he⟩, -⟩ := houtcome
  · cases hkey
    exact ⟨payload, manifest, body, hprepare, hpayload, hbody⟩
  · cases he

/-- **An object has one content**, whatever the run. -/
theorem object_unique (hl : lib.Lawful) (he : lib.EncodesManifests uploads)
    (hfree : CollisionFree lib (involved lib uploads)) (hc : Uploads lib uploads .empty c)
    (hc' : Uploads lib uploads .empty c') {x y : List Byte} (hx : c.shared.objects key = some x)
    (hy : c'.shared.objects key = some y) : x = y :=
  ((keeps_of_uploads hl he hfree hc).1.1 key x hx).unique hl hfree
    ((keeps_of_uploads hl he hfree hc').1.1 key y hy)

/-- A read of the bucket under the key may return the records. -/
def Returns (lib : Libraries) (uploads : Set Upload) (b : BucketId) (key : String)
    (rs : List Record) : Prop :=
  ∃ c later, Uploads lib uploads .empty c ∧ Uploads lib uploads c later ∧
    getBucketAt lib ⟨none, c.shared.objects⟩ ⟨none, later.shared.objects⟩ b key = .ok rs

/-- What a read has found. -/
theorem found_of_getBucketAt {m m' : Moment} {b : BucketId} {rs : List Record}
    (h : getBucketAt lib m m' b key = .ok rs) : ∃ object manifest payload,
      m.objects key = some object ∧ parseManifest lib object = .ok manifest ∧
      m'.objects manifest.payloadKey = some payload ∧
      manifest.format.deserialize lib payload = .ok rs := by
  obtain ⟨object, hobject, h⟩ := ok_of_bind h
  obtain ⟨digest, -, h⟩ := ok_of_bind h
  have hread : ∃ manifest, parseManifest lib object = .ok manifest ∧
      readManifestRecordsAt lib m' b manifest = .ok rs := by
    cases digest with
    | none => exact ok_of_bind h
    | some expected =>
        obtain ⟨⟨⟩, -, h⟩ := ok_of_bind h
        exact ok_of_bind h
  obtain ⟨manifest, hparse, hread⟩ := hread
  obtain ⟨-, payload, hpayload, -, hdecode⟩ := payload_of_getBucketAt hread
  exact ⟨object, manifest, payload, readObject_eq_ok hobject, hparse, hpayload, hdecode⟩

/-- **Reads of a bucket under a key return one record list.** -/
theorem Returns.unique (hl : lib.Lawful) (he : lib.EncodesManifests uploads)
    (hfree : CollisionFree lib (involved lib uploads)) {b : BucketId} {rs rs' : List Record}
    (h : Returns lib uploads b key rs) (h' : Returns lib uploads b key rs') : rs = rs' := by
  obtain ⟨c, later, hc, hlater, hread⟩ := h
  obtain ⟨c', later', hc', hlater', hread'⟩ := h'
  obtain ⟨object, manifest, payload, hobject, hparse, hpayload, hdecode⟩ :=
    found_of_getBucketAt hread
  obtain ⟨object', manifest', payload', hobject', hparse', hpayload', hdecode'⟩ :=
    found_of_getBucketAt hread'
  obtain rfl := object_unique hl he hfree hc hc' hobject hobject'
  obtain rfl := Except.ok.inj (hparse.symm.trans hparse')
  obtain rfl := object_unique hl he hfree (hc.trans hlater) (hc'.trans hlater') hpayload hpayload'
  exact Except.ok.inj (hdecode.symm.trans hdecode')

open Classical in
/-- What reads of a bucket under a key return, if they return anything. -/
noncomputable def contentsOf (lib : Libraries) (uploads : Set Upload) (b : BucketId)
    (key : String) : Option (List Record) :=
  if h : ∃ rs, Returns lib uploads b key rs then some h.choose else none

theorem Returns.contentsOf_eq (hl : lib.Lawful) (he : lib.EncodesManifests uploads)
    (hfree : CollisionFree lib (involved lib uploads)) {b : BucketId} {rs : List Record}
    (h : Returns lib uploads b key rs) : contentsOf lib uploads b key = some rs := by
  have hex : ∃ rs, Returns lib uploads b key rs := ⟨rs, h⟩
  unfold contentsOf
  rw [dif_pos hex]
  exact congrArg some (Returns.unique hl he hfree hex.choose_spec h)

/-! ### The key of an upload -/

/-- The key that an upload returns if it succeeds. -/
def objectKeyOf (lib : Libraries) (store : OpenDalArchiveStore) (bucket : BucketId)
    (generation : Option ℕ) (records : List Record) : String :=
  match prepare lib store bucket generation records with
  | .ok (_, _, _, key) => key
  | .error _ => store.contentManifestKey bucket generation (hexEncode [])

variable {store : OpenDalArchiveStore} {b b' : BucketId} {g g' : ℕ} {rs rs' : List Record}

theorem Upload.Stored.key_eq (h : Upload.Stored lib ⟨store, b, some g, rs⟩ key o) :
    objectKeyOf lib store b (some g) rs = key := by
  obtain ⟨payload, manifest, body, hprepare, -⟩ := h
  unfold objectKeyOf
  rw [hprepare]

theorem exists_digest (lib : Libraries) (store : OpenDalArchiveStore) (b : BucketId)
    (generation : Option ℕ) (rs : List Record) : ∃ digest,
      objectKeyOf lib store b generation rs =
        store.contentManifestKey b generation (hexEncode digest) := by
  unfold objectKeyOf
  split
  · rename_i hprepare
    obtain ⟨-, -, -, rfl⟩ := prepare_eq_ok hprepare
    exact ⟨_, rfl⟩
  · exact ⟨[], rfl⟩

theorem objectKeyOf_inj
    (h : objectKeyOf lib store b (some g) rs = objectKeyOf lib store b' (some g') rs') :
    refOf b = refOf b' ∧ g = g' := by
  obtain ⟨digest, hdigest⟩ := exists_digest lib store b (some g) rs
  obtain ⟨digest', hdigest'⟩ := exists_digest lib store b' (some g') rs'
  rw [hdigest, hdigest'] at h
  obtain ⟨⟨ht, hp, hk, hg⟩, -⟩ := contentManifestKey_inj (congrArg normalizePath h)
  exact ⟨by rw [refOf, refOf, ht, hp, hk], Option.some_injective _ hg⟩

/-! ### The tier -/

variable (lib uploads store)

/-- An operation of the store, with whatever uploads do until then. -/
def serveUploads : (q : ArchiveRequest) → UploadPool → q.Reply → UploadPool → Prop
  | .putBucket b rs, c, r, c' => Uploads lib uploads c c' ∧
      ∃ p ∈ c'.parties, p.name = ⟨store, b, none, rs⟩ ∧ p.rest = .ret r
  | .putBucketGeneration b g rs, c, r, c' => Uploads lib uploads c c' ∧
      ∃ p ∈ c'.parties, p.name = ⟨store, b, some g, rs⟩ ∧ p.rest = .ret r
  | .getBucket b key, c, r, c' => Uploads lib uploads c c' ∧
      -- the payload is read later than the manifest
      ∃ later, Uploads lib uploads c' later ∧
        r = getBucketAt lib ⟨none, c'.shared.objects⟩ ⟨none, later.shared.objects⟩ b key

/-- The objects of uploads that returned. -/
def KeepsUploads (c : UploadPool) (o : Objects) : Prop :=
  Uploads lib uploads .empty c ∧ ∀ key rs, o key = some rs → ∃ b g,
    (⟨store, b, some g, rs⟩ : Upload) ∈ uploads ∧ b.Canonical ∧ (∀ r ∈ rs, r.eventTime.Whole) ∧
      Upload.Stored lib ⟨store, b, some g, rs⟩ key c.shared.objects

variable {lib store uploads} {archived : Objects}

theorem KeepsUploads.step (h : KeepsUploads lib uploads store c archived)
    (hc : Uploads lib uploads c c') : KeepsUploads lib uploads store c' archived := by
  refine ⟨h.1.trans hc, fun key rs hkey => ?_⟩
  obtain ⟨b, g, hu, hb, hwhole, hstored⟩ := h.2 key rs hkey
  exact ⟨b, g, hu, hb, hwhole, hstored.mono fun _ _ => objects_kept hc⟩

theorem KeepsUploads.put (hl : lib.Lawful) (he : lib.EncodesManifests uploads)
    (hfree : CollisionFree lib (involved lib uploads)) {r : Except StoreError String}
    (h : KeepsUploads lib uploads store c archived) (hb : b.Canonical)
    (hwhole : ∀ y ∈ rs, y.eventTime.Whole)
    (hs : serveUploads lib uploads store (.putBucketGeneration b g rs) c r c') :
    ∃ archived', KeepsObjects (objectKeyOf lib store) (.putBucketGeneration b g rs) archived r
      archived' ∧ KeepsUploads lib uploads store c' archived' := by
  obtain ⟨hc, ⟨name, log, rest⟩, hp, hname, hrest⟩ := hs
  dsimp only at hname hrest
  subst hname hrest
  have h' := h.step hc
  cases r with
  | error e => exact ⟨archived, .failed, h'⟩
  | ok key =>
      have hu : (⟨store, b, some g, rs⟩ : Upload) ∈ uploads := Pool.may_name h'.1 _ hp
      have hstored := stored_of_returned hl he hfree h'.1 _ hp key rfl
      obtain rfl := hstored.key_eq
      refine ⟨_, .putBucketGeneration, h'.1, fun key rs' hkey => ?_⟩
      by_cases hne : key = objectKeyOf lib store b (some g) rs
      · subst hne
        rw [Function.update_self] at hkey
        cases hkey
        exact ⟨b, g, hu, hb, hwhole, hstored⟩
      · rw [Function.update_of_ne hne] at hkey
        exact h'.2 key rs' hkey

/-- **What is kept under a key of the bucket is read.** -/
theorem KeepsUploads.get (hl : lib.Lawful) (he : lib.EncodesManifests uploads)
    {r : Except StoreError (List Record)} (h : KeepsUploads lib uploads store c archived)
    (hs : serveUploads lib uploads store (.getBucket b key) c r c') :
    KeepsUploads lib uploads store c' archived ∧
      (b.Canonical → KeyOf (objectKeyOf lib store) b key → ∀ rs, archived key = some rs →
        r = .ok rs) := by
  obtain ⟨hc, later, hlater, rfl⟩ := hs
  have h' := h.step hc
  refine ⟨h', fun hb hkey rs hrs => ?_⟩
  obtain ⟨b₁, g₁, hu, hb₁, hwhole, hstored⟩ := h'.2 key rs hrs
  -- the key names the bucket of the upload, and that is the one asked for
  obtain ⟨b₂, g₂, rs₂, href, hkey⟩ := hkey
  obtain ⟨href', -⟩ := objectKeyOf_inj (hstored.key_eq.trans hkey.symm)
  obtain ⟨ht, hpk⟩ := Prod.mk.inj (href'.trans href)
  obtain ⟨hp, hk⟩ := Prod.mk.inj hpk
  obtain rfl := hb₁.eq_of_key hb ht hp hk
  exact getBucketAt_stored (u := ⟨store, b₁, some g₁, rs⟩) hl he hu
    (fun r hr => (hwhole r hr).1) hstored fun _ _ => objects_kept hlater

theorem serveUploads_reads (b : BucketId) (key : String) (c : UploadPool) :
    ∃ r c', serveUploads lib uploads store (.getBucket b key) c r c' :=
  ⟨_, c, .refl, c, .refl, rfl⟩

variable (store) in
/-- The store, below a table. -/
def openDalTier (hl : lib.Lawful) (he : lib.EncodesManifests uploads)
    (hfree : CollisionFree lib (involved lib uploads)) :
    ArchiveTier BucketId.Canonical (objectKeyOf lib store) where
  State := UploadPool
  serve := serveUploads lib uploads store
  Keeps := KeepsUploads lib uploads store
  put := KeepsUploads.put hl he hfree
  get := KeepsUploads.get hl he
  reads := serveUploads_reads

theorem keepsUploads_empty : KeepsUploads lib uploads store .empty fun _ => none :=
  ⟨.refl, fun _ _ h => nomatch h⟩

end

end Pulpitum.OpenDal
