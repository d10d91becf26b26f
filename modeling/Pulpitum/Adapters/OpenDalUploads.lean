import Mathlib
import Pulpitum.Support.Pool
import Pulpitum.Adapters.OpenDalIntegrity

/-!
# Adapters — OpenDAL uploads

Any number of uploads at once, by any workers, over an object store that carries a request out or
not, now or later, and reports so or not.

An upload is `write_records`, one request at a time.  A write whose reply is lost may have been
carried out, or be carried out at any later time.

* `writeRecords_reaches`: with no one else, this is `writeRecords`.
* `Written.unique`: an upload writes an object under a key that only these bytes have.
* `uploads_resumable`: **uploads are resumable and write-once.**
-/

namespace Pulpitum.OpenDal
open Text Fallible

/-! ### Requests -/

/-- A request to the object store: a write with `if_not_exists`, or a read. -/
inductive ObjectRequest where
  | write (key : String) (body : List Byte)
  | read (key : String)

/-- How a write was answered. -/
inductive WriteReply where
  | created
  | conditionNotMatch
  | failed (e : ServiceError)

/-- How a read was answered. -/
inductive ReadReply where
  | found (body : List Byte)
  | notFound
  | failed (e : ServiceError)

/-- `write_error`. -/
def WriteReply.error? : WriteReply → Option StoreError
  | .created | .conditionNotMatch => none
  | .failed e => some e.toStoreError

/-- `read_object`, given how the read was answered. -/
def ReadReply.object (lib : Libraries) (key : String) : ReadReply → Except StoreError (List Byte)
  | .found body => .ok body
  | .notFound => .error (ServiceError.failed (lib.notFound key)).toStoreError
  | .failed e => .error e.toStoreError

/-- The answers to a request. -/
def ObjectRequest.Reply : ObjectRequest → Type
  | .write .. => WriteReply
  | .read _ => ReadReply

/-- The request failed or timed out. -/
def failed : (q : ObjectRequest) × q.Reply → Bool
  | ⟨.write .., WriteReply.failed _⟩ | ⟨.read _, ReadReply.failed _⟩ => true
  | _ => false

/-- The objects, and the writes no one waits for that may still be carried out. -/
structure Remote where
  objects : Blobs
  late : List (String × List Byte)

/-- What a request may be answered, and what becomes of the objects. -/
inductive Serves : (q : ObjectRequest) → Remote → q.Reply → Remote → Prop where
  | create {o late key body} (h : o key = none) :
      Serves (.write key body) ⟨o, late⟩ WriteReply.created ⟨writeIfNotExists key body o, late⟩
  | conflict {o late key body x} (h : o key = some x) :
      Serves (.write key body) ⟨o, late⟩ WriteReply.conditionNotMatch ⟨o, late⟩
  | loseWrite {s key body e} : Serves (.write key body) s (WriteReply.failed e) s
  | loseReply {o late key body e} :
      Serves (.write key body) ⟨o, late⟩ (WriteReply.failed e) ⟨writeIfNotExists key body o, late⟩
  | delay {o late key body e} :
      Serves (.write key body) ⟨o, late⟩ (WriteReply.failed e) ⟨o, (key, body) :: late⟩
  | find {s key x} (h : s.objects key = some x) : Serves (.read key) s (ReadReply.found x) s
  | miss {s key} (h : s.objects key = none) : Serves (.read key) s ReadReply.notFound s
  | loseRead {s key e} : Serves (.read key) s (ReadReply.failed e) s

/-- A write no one waits for is carried out. -/
inductive Drift : Remote → Remote → Prop where
  | apply {o l l' key body} :
      Drift ⟨o, l ++ (key, body) :: l'⟩ ⟨writeIfNotExists key body o, l ++ l'⟩

/-! ### The program -/

/-- The arguments of a call of `put_bucket` or `put_bucket_generation`, and its store. -/
structure Upload where
  store : OpenDalArchiveStore
  bucket : BucketId
  generation : Option ℕ
  records : List Record

namespace Upload

/-- `create_object_verified`. -/
def createObjectVerified (lib : Libraries) (key : String) (expected : List Byte) :
    Prog ObjectRequest.Reply (Except StoreError (List Byte)) :=
  .ask (.write key expected) fun (write : WriteReply) =>
    .ask (.read key) fun (read : ReadReply) =>
      .ret <| match read.object lib key with
        | .ok uploaded =>
            if uploaded = expected then .ok uploaded
            else .error (.other "immutable archive object already exists with different content")
        | .error e => .error (write.error?.getD e)

/-- `write_records`. -/
def writeRecords (lib : Libraries) (u : Upload) :
    Prog ObjectRequest.Reply (Except StoreError String) :=
  match prepare lib u.store u.bucket u.generation u.records with
  | .error e => .ret (.error e)
  | .ok (payload, manifest, manifestBody, manifestKey) => do
    match ← createObjectVerified lib manifest.payloadKey payload with
    | .error e => return .error e
    | .ok uploadedPayload =>
      match checkPayload lib u.store manifest uploadedPayload with
      | .error e => return .error e
      | .ok () =>
        match ← createObjectVerified lib manifestKey manifestBody with
        | .error e => return .error e
        | .ok uploadedManifest =>
          return (checkManifest lib manifest uploadedManifest).map fun _ => manifestKey

end Upload

/-! ### With no one else -/

section Alone

variable {lib : Libraries} {o : Blobs} {late : List (String × List Byte)}

theorem serves_write (fate : Fate) (key : String) (body : List Byte) :
    ∃ w : WriteReply,
      Serves (.write key body) ⟨o, late⟩ w ⟨fate.written key body o, late⟩ ∧
        w.error? = fate.write.map fun p => p.1.toStoreError := by
  unfold Fate.written
  rcases fate.write with _ | ⟨e, _ | _⟩
  · cases h : o key with
    | none => exact ⟨.created, .create h, rfl⟩
    | some x =>
        have hkeep : writeIfNotExists key body o = o :=
          if_neg (by rw [h]; exact Option.some_ne_none x)
        dsimp only
        rw [hkeep]
        exact ⟨.conditionNotMatch, .conflict h, rfl⟩
  · exact ⟨.failed e, .loseWrite, rfl⟩
  · exact ⟨.failed e, .loseReply, rfl⟩

theorem serves_read (failure : Option ServiceError) (key : String) :
    ∃ r : ReadReply, Serves (.read key) ⟨o, late⟩ r ⟨o, late⟩ ∧
      r.object lib key = readObject lib failure key o := by
  unfold readObject
  cases failure with
  | some e => exact ⟨.failed e, .loseRead, rfl⟩
  | none =>
      cases h : o key with
      | none => exact ⟨.notFound, .miss h, rfl⟩
      | some x => exact ⟨.found x, .find h, rfl⟩

theorem createObjectVerified_reaches (fate : Fate) (key : String) (expected : List Byte) :
    (Upload.createObjectVerified lib key expected).Reaches Serves ⟨o, late⟩
      (createObjectVerified lib fate key expected o).1
      ⟨(createObjectVerified lib fate key expected o).2, late⟩ := by
  obtain ⟨w, hw, herror⟩ := @serves_write o late fate key expected
  obtain ⟨r, hr, hobject⟩ := @serves_read lib (fate.written key expected o) late fate.read key
  refine ⟨w, _, hw, r, _, hr, ?_, rfl⟩
  dsimp only [createObjectVerified]
  rw [hobject, herror]
  cases readObject lib fate.read key (fate.written key expected o) with
  | ok uploaded => rfl
  | error e => cases fate.write <;> rfl

/-- **With no one else, an upload does what `writeRecords` does.** -/
theorem writeRecords_reaches (u : Upload) (onPayload onManifest : Fate) :
    (u.writeRecords lib).Reaches Serves ⟨o, late⟩
      (writeRecords lib u.store onPayload onManifest u.bucket u.generation u.records o).1
      ⟨(writeRecords lib u.store onPayload onManifest u.bucket u.generation u.records o).2,
        late⟩ := by
  unfold Upload.writeRecords writeRecords
  cases prepare lib u.store u.bucket u.generation u.records with
  | error e => exact ⟨rfl, rfl⟩
  | ok p =>
      obtain ⟨payload, manifest, body, key⟩ := p
      refine (createObjectVerified_reaches onPayload _ _).bind ?_
      dsimp only
      rcases createObjectVerified lib onPayload manifest.payloadKey payload o
        with ⟨_ | uploaded, o₁⟩
      · exact ⟨rfl, rfl⟩
      · dsimp only
        cases checkPayload lib u.store manifest uploaded with
        | error e => exact ⟨rfl, rfl⟩
        | ok _ =>
            refine (createObjectVerified_reaches onManifest _ _).bind ?_
            dsimp only
            rcases createObjectVerified lib onManifest key body o₁ with ⟨_ | uploaded', o₂⟩
            · exact ⟨rfl, rfl⟩
            · exact ⟨rfl, rfl⟩

end Alone

/-! ### What is written -/

/-- The upload writes the object: its payload, or its manifest. -/
def Upload.Writes (lib : Libraries) (u : Upload) (key : String) (body : List Byte) : Prop :=
  ∃ payload manifest manifestBody manifestKey,
    prepare lib u.store u.bucket u.generation u.records =
        .ok (payload, manifest, manifestBody, manifestKey) ∧
      ((key = manifest.payloadKey ∧ body = payload) ∨ (key = manifestKey ∧ body = manifestBody))

/-- One of the uploads writes the object. -/
def Written (lib : Libraries) (uploads : Set Upload) (key : String) (body : List Byte) : Prop :=
  ∃ u ∈ uploads, u.Writes lib key body

/-- The byte strings that the uploads write. -/
def involved (lib : Libraries) (uploads : Set Upload) : Set (List Byte) :=
  {body | ∃ key, Written lib uploads key body}

section Written

variable {lib : Libraries} {uploads : Set Upload} {u : Upload} {key : String} {x y : List Byte}

/-- The file name of an object says what it is, and its checksum. -/
theorem Upload.Writes.fileName (h : u.Writes lib key x) : ∃ (name : String) (ending : List Char),
    (name = "records-" ∨ name = "manifest-") ∧
      fileName key.toList = name.toList ++ (hexDigits (lib.digest x) ++ ending) := by
  obtain ⟨payload, manifest, body, manifestKey, hprepare, ⟨rfl, rfl⟩ | ⟨rfl, rfl⟩⟩ := h
  · obtain ⟨-, -, rfl, -⟩ := prepare_eq_ok hprepare
    exact ⟨_, _, .inl rfl, fileName_contentPayloadKey _⟩
  · obtain ⟨-, -, -, rfl⟩ := prepare_eq_ok hprepare
    exact ⟨_, _, .inr rfl, fileName_contentManifestKey _⟩

/-- **A key has one content**, if no two byte strings that are written have the same SHA-256. -/
theorem Written.unique (hl : lib.Lawful) (hfree : CollisionFree lib (involved lib uploads))
    (hx : Written lib uploads key x) (hy : Written lib uploads key y) : x = y := by
  obtain ⟨u, hu, hux⟩ := hx
  obtain ⟨v, hv, hvy⟩ := hy
  obtain ⟨name, ending, hname, hfile⟩ := hux.fileName
  obtain ⟨name', ending', hname', hfile'⟩ := hvy.fileName
  have hsame := hfile.symm.trans hfile'
  obtain rfl : name = name' := by
    rcases hname with rfl | rfl <;> rcases hname' with rfl | rfl
    · rfl
    · simp at hsame
    · simp at hsame
    · rfl
  have hlength : (hexDigits (lib.digest x)).length = (hexDigits (lib.digest y)).length := by
    simp only [length_hexDigits, hl.length_digest]
  have hdigits := (List.append_inj (List.append_cancel_left hsame) hlength).1
  exact hfree ⟨key, u, hu, hux⟩ ⟨key, v, hv, hvy⟩ (hexDigits_injective hdigits)

end Written

/-- The manifest of the upload, if its records are encoded as `payload`. -/
def Upload.manifest (lib : Libraries) (u : Upload) (payload : List Byte) : ArchiveManifest :=
  .new lib u.bucket u.generation u.store.format
    (u.store.contentPayloadKey u.bucket u.generation (sha256 lib payload)) u.records payload

/-- The manifests of the uploads can be encoded, and are decoded again. -/
def Libraries.EncodesManifests (lib : Libraries) (uploads : Set Upload) : Prop :=
  ∀ u ∈ uploads, ∀ payload, u.store.format.serialize lib u.records = .ok payload →
    ∃ p, lib.manifestToVec (u.manifest lib payload) = .ok p ∧
      lib.manifestFromSlice p = .ok (u.manifest lib payload)

section Prepared

variable {lib : Libraries} {uploads : Set Upload} {u : Upload} {payload body : List Byte}
  {manifest : ArchiveManifest} {key : String}

/-- The records pass `validate_records` and can be encoded. -/
def Upload.Accepted (lib : Libraries) (u : Upload) : Prop :=
  validateRecords u.bucket u.records = .ok () ∧
    ∃ payload, u.store.format.serialize lib u.records = .ok payload

theorem Upload.Accepted.prepare (he : lib.EncodesManifests uploads) (hu : u ∈ uploads)
    (h : u.Accepted lib) : ∃ p, prepare lib u.store u.bucket u.generation u.records = .ok p := by
  obtain ⟨hvalid, payload, hpayload⟩ := h
  obtain ⟨body, hbody, -⟩ := he u hu payload hpayload
  exact ⟨_, bind_of_ok hvalid (bind_of_ok hpayload (bind_of_ok (mapError_eq_ok.mpr hbody) rfl))⟩

/-- What was prepared passes the check of an uploaded manifest. -/
theorem checkManifest_prepared (he : lib.EncodesManifests uploads) (hu : u ∈ uploads)
    (h : prepare lib u.store u.bucket u.generation u.records =
      .ok (payload, manifest, body, key)) :
    checkManifest lib manifest body = .ok () := by
  refine checkManifest_of_parsed h ?_
  obtain ⟨⟨⟩, -, h⟩ := ok_of_bind h
  obtain ⟨payload', hpayload, h⟩ := ok_of_bind h
  obtain ⟨body', hbody, h⟩ := ok_of_bind h
  cases h
  obtain ⟨p, hp, hparse⟩ := he u hu payload hpayload
  cases hp.symm.trans (mapError_eq_ok.mp hbody)
  exact hparse

end Prepared

/-! ### What an upload knows -/

/-- An upload knows objects, which stay, and whether one of its requests has failed.  It writes
what one of the uploads writes. -/
def discipline (lib : Libraries) (uploads : Set Upload) : Discipline ObjectRequest.Reply where
  Fact := Blobs × Bool
  le F G := (∀ key x, F.1 key = some x → G.1 key = some x) ∧ (F.2 = true → G.2 = true)
  le_refl _ := ⟨fun _ _ h => h, id⟩
  le_trans h h' := ⟨fun key x hx => h'.1 key x (h.1 key x hx), fun hf => h'.2 (h.2 hf)⟩
  legit _
    | .write key body => Written lib uploads key body
    | .read _ => True
  learn
    | .write _ _, WriteReply.failed _, G => G.2 = true
    | .write key _, _, G => ∃ x, G.1 key = some x
    | .read key, ReadReply.found x, G => G.1 key = some x ∧ Written lib uploads key x
    | .read key, ReadReply.notFound, G => G.1 key = none
    | .read _, ReadReply.failed _, G => G.2 = true
  legit_mono _ h := h

/-- What an upload knows of the objects, given what it has asked. -/
def known (s : Remote) (log : List ((q : ObjectRequest) × q.Reply)) : Blobs × Bool :=
  (s.objects, log.any failed)

/-- All objects, and all writes that may still be carried out, are those of the uploads. -/
def Remote.Own (lib : Libraries) (uploads : Set Upload) (s : Remote) : Prop :=
  (∀ key x, s.objects key = some x → Written lib uploads key x) ∧
    ∀ p ∈ s.late, Written lib uploads p.1 p.2

section Guarantee

variable {lib : Libraries} {uploads : Set Upload} {key key' : String} {body x : List Byte}
  {o : Blobs} {late : List (String × List Byte)}

theorem writeIfNotExists_of_some (h : o key' = some x) :
    writeIfNotExists key body o key' = some x :=
  @Fate.written_of_some .fine key key' body x o h

theorem exists_writeIfNotExists (key : String) (body : List Byte) (o : Blobs) :
    ∃ x, writeIfNotExists key body o key = some x := by
  unfold writeIfNotExists
  split
  · exact ⟨body, Function.update_self ..⟩
  · rename_i h
    exact Option.ne_none_iff_exists'.mp h

/-- An object after a write was there before, or is the one that was written. -/
theorem mem_writeIfNotExists (h : writeIfNotExists key body o key' = some x) :
    o key' = some x ∨ key' = key ∧ x = body := by
  unfold writeIfNotExists at h
  split at h
  · by_cases hk : key' = key
    · subst hk
      rw [Function.update_self] at h
      exact .inr ⟨rfl, (Option.some.inj h).symm⟩
    · rw [Function.update_of_ne hk] at h
      exact .inl h
  · exact .inl h

theorem Remote.Own.write (h : Remote.Own lib uploads ⟨o, late⟩)
    (hw : Written lib uploads key body) :
    Remote.Own lib uploads ⟨writeIfNotExists key body o, late⟩ := by
  refine ⟨fun key' x hx => ?_, h.2⟩
  rcases mem_writeIfNotExists hx with hx | ⟨rfl, rfl⟩
  · exact h.1 key' x hx
  · exact hw

theorem Serves.keeps {q : ObjectRequest} {s s' : Remote} {r : q.Reply} (h : Serves q s r s') :
    ∀ key x, s.objects key = some x → s'.objects key = some x := by
  cases h with
  | create _ | loseReply => exact fun _ _ hx => writeIfNotExists_of_some hx
  | conflict _ | loseWrite | delay | find _ | miss _ | loseRead => exact fun _ _ hx => hx

theorem Drift.keeps {s s' : Remote} (h : Drift s s') :
    ∀ key x, s.objects key = some x → s'.objects key = some x := by
  cases h with
  | apply => exact fun _ _ hx => writeIfNotExists_of_some hx

/-- The object store guarantees what the uploads rely on. -/
theorem guarantee (lib : Libraries) (uploads : Set Upload) :
    Pool.Guarantee Serves Drift (discipline lib uploads) known (Remote.Own lib uploads) where
  invariant {q s r s' log} hserve hown hlegit := by
    cases hserve with
    | create _ | loseReply => exact hown.write hlegit
    | delay => exact ⟨hown.1, List.forall_mem_cons.mpr ⟨hlegit, hown.2⟩⟩
    | conflict _ | loseWrite | find _ | miss _ | loseRead => exact hown
  others hserve := ⟨hserve.keeps, id⟩
  own hserve := ⟨hserve.keeps, fun hf => by simp only [known, List.any_append] at hf ⊢; simp [hf]⟩
  learns {q s r s' log} hserve hown _ := by
    cases hserve with
    | create _ => exact exists_writeIfNotExists ..
    | conflict h => exact ⟨_, h⟩
    | loseReply | loseWrite | delay | loseRead => simp [discipline, known, failed]
    | find h => exact ⟨h, hown.1 _ _ h⟩
    | miss h => exact h
  drift_invariant hdrift hown := by
    cases hdrift with
    | apply =>
        obtain ⟨hobjects, hlate⟩ := hown
        have hw := hlate _ (List.mem_append_right _ (List.mem_cons_self ..))
        exact Remote.Own.write ⟨hobjects, forall_mem_remove hlate⟩ hw
  drift_le hdrift := ⟨hdrift.keeps, id⟩

end Guarantee

/-! ### Uploads -/

section Uploads

variable {lib : Libraries} {uploads : Set Upload} {u : Upload} {key : String}
  {expected : List Byte}

/-- The object is there with its content, or a request has failed. -/
theorem createObjectVerified_keeps (hl : lib.Lawful)
    (hfree : CollisionFree lib (involved lib uploads)) (hw : Written lib uploads key expected)
    (F : Blobs × Bool) :
    (Upload.createObjectVerified lib key expected).Keeps (discipline lib uploads) F fun r G =>
      (r = .ok expected ∧ G.1 key = some expected) ∨ ((∃ e, r = .error e) ∧ G.2 = true) := by
  refine ⟨hw, fun G hG (write : WriteReply) hwrite => ⟨trivial, fun H hH read hread => ?_⟩⟩
  cases read with
  | found x =>
      obtain ⟨hx, hwritten⟩ := hread
      obtain rfl := hwritten.unique hl hfree hw
      exact .inl ⟨if_pos rfl, hx⟩
  | failed e => exact .inr ⟨⟨_, rfl⟩, hread⟩
  | notFound =>
      refine .inr ⟨⟨_, rfl⟩, ?_⟩
      -- the object was there after a write that did not fail
      cases write with
      | failed e => exact hH.2 hwrite
      | created | conditionNotMatch =>
          obtain ⟨x, hx⟩ := hwrite
          cases (hH.1 _ _ hx).symm.trans hread

/-- What an upload returns: its key, with its objects stored, or an error, if a request has failed
or nothing could be prepared. -/
def Outcome (lib : Libraries) (u : Upload) (r : Except StoreError String) (G : Blobs × Bool) :
    Prop :=
  (∃ payload manifest body key,
    prepare lib u.store u.bucket u.generation u.records = .ok (payload, manifest, body, key) ∧
      r = .ok key ∧ G.1 manifest.payloadKey = some payload ∧ G.1 key = some body) ∨
    (∃ e, r = .error e) ∧
      (G.2 = true ∨ ∃ e, prepare lib u.store u.bucket u.generation u.records = .error e)

theorem writeRecords_keeps (hl : lib.Lawful) (he : lib.EncodesManifests uploads)
    (hfree : CollisionFree lib (involved lib uploads)) (hu : u ∈ uploads) (F : Blobs × Bool) :
    (u.writeRecords lib).Keeps (discipline lib uploads) F (Outcome lib u) := by
  unfold Upload.writeRecords
  cases hprepare : prepare lib u.store u.bucket u.generation u.records with
  | error e => exact .inr ⟨⟨e, rfl⟩, .inr ⟨e, hprepare⟩⟩
  | ok p =>
      obtain ⟨payload, manifest, body, key⟩ := p
      have hpayload : Written lib uploads manifest.payloadKey payload :=
        ⟨u, hu, _, _, _, _, hprepare, .inl ⟨rfl, rfl⟩⟩
      have hbody : Written lib uploads key body :=
        ⟨u, hu, _, _, _, _, hprepare, .inr ⟨rfl, rfl⟩⟩
      refine .bind ((createObjectVerified_keeps hl hfree hpayload F).imp fun r G _ hr => ?_)
      obtain ⟨rfl, hstored⟩ | ⟨⟨e, rfl⟩, hfailed⟩ := hr
      · dsimp only
        rw [checkPayload_prepared hl hprepare]
        refine .bind ((createObjectVerified_keeps hl hfree hbody G).imp fun r H hH hr => ?_)
        obtain ⟨rfl, hstored'⟩ | ⟨⟨e, rfl⟩, hfailed⟩ := hr
        · dsimp only
          rw [checkManifest_prepared he hu hprepare]
          exact .inl ⟨_, _, _, _, hprepare, rfl, hH.1 _ _ hstored, hstored'⟩
        · exact .inr ⟨⟨e, rfl⟩, .inl hfailed⟩
      · exact .inr ⟨⟨e, rfl⟩, .inl hfailed⟩

theorem Outcome.mono {r : Except StoreError String} {F G : Blobs × Bool}
    (hle : (discipline lib uploads).le F G) (h : Outcome lib u r F) : Outcome lib u r G := by
  obtain ⟨payload, manifest, body, key, hprepare, hr, hp, hb⟩ | ⟨hr, hfailed⟩ := h
  · exact .inl ⟨payload, manifest, body, key, hprepare, hr, hle.1 _ _ hp, hle.1 _ _ hb⟩
  · exact .inr ⟨hr, hfailed.imp hle.2 id⟩

theorem createObjectVerified_within (lib : Libraries) (key : String) (expected : List Byte) :
    (Upload.createObjectVerified lib key expected).Within 2 := fun _ _ => .ret _ _

/-- An upload makes four requests at most. -/
theorem writeRecords_within (lib : Libraries) (u : Upload) : (u.writeRecords lib).Within 4 := by
  unfold Upload.writeRecords
  split
  · exact .ret _ _
  · refine Prog.Within.bind (n := 2) (fun r => ?_) (createObjectVerified_within _ _ _)
    split
    · exact .ret _ _
    · split
      · exact .ret _ _
      · refine Prog.Within.bind (n := 0) (fun r => ?_) (createObjectVerified_within _ _ _)
        split <;> exact .ret _ _

/-- A request can be answered without a failure. -/
theorem exists_serves (q : ObjectRequest) (s : Remote) :
    ∃ r s', Serves q s r s' ∧ failed ⟨q, r⟩ = false := by
  obtain ⟨o, late⟩ := s
  cases q with
  | write key body =>
      cases h : o key with
      | none => exact ⟨_, _, .create h, rfl⟩
      | some x => exact ⟨_, _, .conflict h, rfl⟩
  | read key =>
      cases h : o key with
      | none => exact ⟨_, _, .miss h, rfl⟩
      | some x => exact ⟨_, _, .find h, rfl⟩

/-- The pools of uploads that a run from an empty object store reaches. -/
abbrev UploadPool := Pool Remote ObjectRequest.Reply (Except StoreError String) Upload

/-- The steps of uploads among `uploads`. -/
abbrev Uploads (lib : Libraries) (uploads : Set Upload) : UploadPool → UploadPool → Prop :=
  Pool.Reaches Serves Drift (Upload.writeRecords lib) (· ∈ uploads)

/-- No objects, and no uploads. -/
def UploadPool.empty : UploadPool := ⟨⟨fun _ => none, []⟩, []⟩

/-- What holds of a pool of uploads. -/
structure Resumable (lib : Libraries) (uploads : Set Upload) (c : UploadPool) : Prop where
  /-- No object is ever changed. -/
  write_once : ∀ c', Uploads lib uploads c c' → ∀ key x,
    c.shared.objects key = some x → c'.shared.objects key = some x
  /-- An upload that succeeded has left both objects with the bytes that were meant. -/
  stored : ∀ p ∈ c.parties, ∀ key, p.rest = .ret (.ok key) → ∃ payload manifest body,
    prepare lib p.name.store p.name.bucket p.name.generation p.name.records =
        .ok (payload, manifest, body, key) ∧
      c.shared.objects manifest.payloadKey = some payload ∧ c.shared.objects key = some body
  /-- Uploads with the same arguments that succeeded have returned the same key. -/
  same_key : ∀ p ∈ c.parties, ∀ p' ∈ c.parties, p.name = p'.name → ∀ key key',
    p.rest = .ret (.ok key) → p'.rest = .ret (.ok key') → key = key'
  /-- An upload whose requests did not fail succeeds, whatever the others do meanwhile. -/
  succeeds : ∀ p ∈ c.parties, p.name.Accepted lib → (∀ e ∈ p.log, failed e = false) →
    ∀ r, p.rest = .ret r → ∃ key, r = .ok key
  /-- An upload returns after four requests at most, and each can be answered. -/
  returns : ∀ p ∈ c.parties, p.log.length ≤ 4 ∧ ∀ q k, p.rest = .ask q k →
    ∃ r s', Serves q c.shared r s' ∧ failed ⟨q, r⟩ = false
  /-- An upload whose requests do not fail, made now, succeeds. -/
  resumes : ∀ u ∈ uploads, u.Accepted lib → ∃ key o',
    writeRecords lib u.store .fine .fine u.bucket u.generation u.records c.shared.objects =
      (.ok key, o')

/-- The objects stay as they are. -/
theorem objects_kept {c c' : UploadPool} (h : Uploads lib uploads c c') {key : String}
    {x : List Byte} (hx : c.shared.objects key = some x) : c'.shared.objects key = some x := by
  induction h with
  | refl => exact hx
  | tail _ hstep ih =>
      cases hstep with
      | enter => exact ih
      | act hserve => exact hserve.keeps _ _ ih
      | drift hdrift => exact hdrift.keeps _ _ ih

theorem createObjectVerified_fine {o : Blobs} (hl : lib.Lawful)
    (hfree : CollisionFree lib (involved lib uploads))
    (ho : ∀ key x, o key = some x → Written lib uploads key x)
    (hw : Written lib uploads key expected) :
    createObjectVerified lib .fine key expected o =
      (.ok expected, writeIfNotExists key expected o) := by
  obtain ⟨x, hx⟩ := exists_writeIfNotExists key expected o
  have hown : Remote.Own lib uploads ⟨writeIfNotExists key expected o, []⟩ :=
    Remote.Own.write ⟨ho, List.forall_mem_nil _⟩ hw
  obtain rfl := (hown.1 key x hx).unique hl hfree hw
  have hread : readObject lib Fate.fine.read key (Fate.fine.written key x o) = .ok x :=
    readObject_of_some hx
  unfold createObjectVerified
  dsimp only
  rw [hread]
  dsimp only
  rw [if_pos rfl]
  rfl

/-- An upload whose requests do not fail finds nothing that stops it. -/
theorem writeRecords_fine (hl : lib.Lawful) (he : lib.EncodesManifests uploads)
    (hfree : CollisionFree lib (involved lib uploads)) {s : Remote}
    (hs : s.Own lib uploads) (hu : u ∈ uploads) (haccepted : u.Accepted lib) :
    ∃ key o', writeRecords lib u.store .fine .fine u.bucket u.generation u.records s.objects =
      (.ok key, o') := by
  obtain ⟨⟨payload, manifest, body, key⟩, hprepare⟩ := haccepted.prepare he hu
  have hpayload : Written lib uploads manifest.payloadKey payload :=
    ⟨u, hu, _, _, _, _, hprepare, .inl ⟨rfl, rfl⟩⟩
  have hbody : Written lib uploads key body :=
    ⟨u, hu, _, _, _, _, hprepare, .inr ⟨rfl, rfl⟩⟩
  have hown := hs.write hpayload
  refine ⟨key, writeIfNotExists key body
    (writeIfNotExists manifest.payloadKey payload s.objects), ?_⟩
  unfold writeRecords
  rw [hprepare]
  dsimp only
  rw [createObjectVerified_fine hl hfree hs.1 hpayload]
  dsimp only
  rw [checkPayload_prepared hl hprepare]
  dsimp only
  rw [createObjectVerified_fine hl hfree hown.1 hbody]
  dsimp only
  rw [checkManifest_prepared he hu hprepare]
  rfl

/-- What `writeRecords` does to an empty object store, one of the uploads does with no one else. -/
theorem uploads_of_writeRecords (hu : u ∈ uploads) {o' : Blobs} (h : writeRecords lib u.store
    .fine .fine u.bucket u.generation u.records (fun _ => none) = (.ok key, o')) :
    ∃ c, Uploads lib uploads .empty c ∧
      ∃ p ∈ c.parties, p.name = u ∧ p.rest = .ret (.ok key) := by
  have halone := @writeRecords_reaches lib (fun _ => none) [] u .fine .fine
  rw [h] at halone
  obtain ⟨log, hrun⟩ : ∃ log, Uploads lib uploads .empty
      ⟨⟨o', []⟩, [⟨u, log, .ret (.ok key)⟩]⟩ := Pool.reaches_party hu halone
  exact ⟨_, hrun, _, List.mem_cons_self .., rfl, rfl⟩

/-- **Uploads are resumable and write-once.** -/
theorem uploads_resumable (hl : lib.Lawful) (he : lib.EncodesManifests uploads)
    (hfree : CollisionFree lib (involved lib uploads)) {c : UploadPool}
    (hc : Uploads lib uploads .empty c) : Resumable lib uploads c := by
  have hown : Remote.Own lib uploads UploadPool.empty.shared :=
    ⟨fun _ _ h => (by cases h), List.forall_mem_nil _⟩
  obtain ⟨hobjects, hkeeps⟩ := (guarantee lib uploads).keeps
    (fun u hu => writeRecords_keeps hl he hfree hu) (fun _ _ => Outcome.mono) hown hc
  have houtcome : ∀ p ∈ c.parties, ∀ r, p.rest = .ret r →
      Outcome lib p.name r (known c.shared p.log) := by
    intro p hp r hr
    have hk := hkeeps p hp
    rw [hr] at hk
    exact hk
  have hstored : ∀ p ∈ c.parties, ∀ key, p.rest = .ret (.ok key) → ∃ payload manifest body,
      prepare lib p.name.store p.name.bucket p.name.generation p.name.records =
          .ok (payload, manifest, body, key) ∧
        c.shared.objects manifest.payloadKey = some payload ∧
        c.shared.objects key = some body := by
    intro p hp key hr
    obtain ⟨payload, manifest, body, key', hprepare, hkey, hp', hb⟩ | ⟨⟨e, he⟩, -⟩ :=
      houtcome p hp _ hr
    · cases hkey
      exact ⟨payload, manifest, body, hprepare, hp', hb⟩
    · cases he
  refine ⟨fun c' h' key x hx => objects_kept h' hx, hstored, ?_, ?_,
    fun p hp => ⟨?_, fun q _ _ => exists_serves q _⟩, ?_⟩
  · intro p hp p' hp' hname key key' hr hr'
    obtain ⟨_, _, _, hprepare, -⟩ := hstored p hp key hr
    obtain ⟨_, _, _, hprepare', -⟩ := hstored p' hp' key' hr'
    rw [← hname, hprepare] at hprepare'
    cases hprepare'
    rfl
  · intro p hp haccepted hfine r hr
    obtain ⟨_, _, _, key, -, hkey, -⟩ | ⟨-, hfailed⟩ := houtcome p hp r hr
    · exact ⟨key, hkey⟩
    · obtain ⟨x, hprepare⟩ := haccepted.prepare he (Pool.may_name hc p hp)
      rcases hfailed with hfailed | ⟨e, herror⟩
      · obtain ⟨e, hmem, hfailed⟩ := List.any_eq_true.mp hfailed
        cases (hfine e hmem).symm.trans hfailed
      · cases hprepare.symm.trans herror
  · exact Pool.length_log_le (fun u _ => writeRecords_within lib u) hc p hp
  · exact fun u hu haccepted => writeRecords_fine hl he hfree hobjects hu haccepted

end Uploads

namespace Sample
open Pulpitum.Sample

/-- The record of the year bucket, as JSON. -/
def upload : Upload := ⟨store .json, bucket, some 1, [record]⟩

theorem collisionFree_upload : CollisionFree libraries (involved libraries {upload}) := by
  refine collisionFree.mono ?_
  rintro x ⟨key, u, rfl, _, _, _, _, hprepare, h⟩
  obtain ⟨hpayload, hrest⟩ := Prod.mk.inj (Except.ok.inj (hprepare.symm.trans prepare_record))
  obtain ⟨hbody, -⟩ := Prod.mk.inj (Prod.mk.inj hrest).2
  rcases h with ⟨-, hx⟩ | ⟨-, hx⟩
  · exact ⟨_, payloadText_mem .json, (hx.trans hpayload).symm⟩
  · exact ⟨_, manifestText_mem .json, (hx.trans hbody).symm⟩

theorem encodesManifests_upload : libraries.EncodesManifests {upload} := by
  rintro u rfl x hx
  obtain ⟨-, hpayload, hmanifest, -⟩ := prepare_eq_ok prepare_record
  obtain rfl : x = payload .json := Except.ok.inj (hx.symm.trans hpayload)
  have hm : upload.manifest libraries (payload .json) = manifest .json := hmanifest.symm
  rw [hm]
  exact ⟨manifestJson .json, manifestToVec_manifest .json, manifestFromSlice_manifestJson .json⟩

/-- The upload, up to its first request. -/
theorem writeRecords_upload : ∃ k,
    upload.writeRecords libraries =
      .ask (.write (manifest .json).payloadKey (payload .json)) k := by
  unfold Upload.writeRecords
  rw [show prepare libraries upload.store upload.bucket upload.generation upload.records = _ from
    prepare_record]
  exact ⟨_, rfl⟩

/-- The upload, with no one else. -/
theorem exists_uploaded : ∃ c, Uploads libraries {upload} .empty c ∧
    ∃ p ∈ c.parties, p.name = upload ∧ p.rest = .ret (.ok (manifestKey .json)) := by
  obtain ⟨o', hwrite⟩ := exists_writeRecords prepare_record
  exact uploads_of_writeRecords (Set.mem_singleton upload) hwrite

end Sample

/-- An upload whose first write was carried out, with its reply lost. -/
theorem uploads_resumable_of_lost_reply : ∃ c,
    Uploads Sample.libraries {Sample.upload} .empty c ∧
      (∃ key, c.shared.objects key = some (Sample.payload .json)) ∧
      Resumable Sample.libraries {Sample.upload} c := by
  obtain ⟨k, hask⟩ := Sample.writeRecords_upload
  have henter : Uploads Sample.libraries {Sample.upload} .empty
      ⟨⟨fun _ => none, []⟩, [⟨Sample.upload, [], .ask (.write _ _) k⟩]⟩ :=
    hask ▸ .single (.enter _ rfl)
  have hc : Uploads Sample.libraries {Sample.upload} .empty _ :=
    henter.tail (.act (l := []) (.loseReply (e := .timedOut)))
  refine ⟨_, hc, ⟨(Sample.manifest .json).payloadKey, by simp [writeIfNotExists]⟩, ?_⟩
  exact uploads_resumable Sample.libraries_lawful Sample.encodesManifests_upload
    Sample.collisionFree_upload hc

end Pulpitum.OpenDal
