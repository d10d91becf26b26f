import Mathlib
import Pulpitum.Support.CutoverMap
import Pulpitum.Adapters.CockroachFiling
import Pulpitum.Adapters.Tiers

/-!
# Adapters — Cockroach records

The records behind the tables.  A row is decoded when it is read, so the cutover of
`CockroachCutover`, of what is kept of records, is turned into one of records; the primary key of
the records table keeps two records of one key in a bucket apart.

* `Holds`: the tables and the objects are a state of the cutover, in which everything decodes.
* `recordRefinement`: **every operation is a step of the cutover of records**, as long as what is
  appended is in whole microseconds.
* `Holds.readRange`, `Holds.object_eq`: reads are answered as the cutover answers them.
-/

namespace Pulpitum
namespace Cockroach

open Cutover (World map_phase map_visible map_applied map_applied_of_notMem)

/-! ### The stores -/

/-- An append that succeeds is of a record whose time is in whole microseconds. -/
def TakesWhole : (q : StoreRequest) → q.Reply → Prop
  | .append _ record, .ok _ => record.eventTime.Whole
  | _, _ => True

/-- The tiers, as long as all that is appended is in whole microseconds. -/
def wholeTiers {Good : BucketId → Prop}
    {objectKey : BucketId → Option ℕ → List Record → String} (T : StoreTier Good)
    (A : ArchiveTier Good objectKey) : Services :=
  .of (fun q s r s' => T.serve q s r s' ∧ TakesWhole q r) A.serve

/-! ### Records -/

namespace Stored

/-- The record that is read back. -/
def decode (x : Stored) : Option Record := do
  let eventTime ← DateTime.fromSql x.eventTime
  return { partitionKey := x.partitionKey, eventTime, sortKey := x.sortKey, value := x.value }

/-- A record is read back. -/
def Decodes (x : Stored) : Prop := ∃ r, x.decode = some r

/-- The record that is read back, if there is one. -/
def record (x : Stored) : Record := x.decode.getD Pulpitum.Sample.record

/-- What the primary key has of a record, its bucket aside. -/
def key (x : Stored) : SqlTime × SortKey := (x.eventTime, x.sortKey)

variable {x y : Stored} {r : Record}

theorem decode_eq_some : x.decode = some r ↔ DateTime.fromSql x.eventTime = some r.eventTime ∧
    r.partitionKey = x.partitionKey ∧ r.sortKey = x.sortKey ∧ r.value = x.value := by
  simp only [decode, Option.bind_eq_bind, Option.bind_eq_some_iff, Option.pure_def,
    Option.some.injEq]
  constructor
  · rintro ⟨t, ht, rfl⟩
    exact ⟨ht, rfl, rfl, rfl⟩
  · rintro ⟨ht, hp, hs, hv⟩
    exact ⟨r.eventTime, ht, by rw [← hp, ← hs, ← hv]⟩

theorem Decodes.decode_eq (h : x.Decodes) : x.decode = some x.record := by
  obtain ⟨r, hr⟩ := h
  rw [record, hr]
  rfl

theorem Decodes.whole (h : x.Decodes) : x.record.eventTime.Whole :=
  DateTime.whole_of_fromSql (decode_eq_some.mp h.decode_eq).1

/-- What is kept of what was read back is what was kept. -/
theorem Decodes.of_record (h : x.Decodes) : Stored.of x.record = x := by
  obtain ⟨ht, hp, hs, hv⟩ := decode_eq_some.mp h.decode_eq
  rw [Stored.of, hp, hs, hv, DateTime.toSql_of_fromSql ht]

/-- A whole record is read back as it was. -/
theorem decode_of (h : r.eventTime.Whole) : (Stored.of r).decode = some r :=
  decode_eq_some.mpr ⟨h.fromSql_toSql, rfl, rfl, rfl⟩

theorem record_of (h : r.eventTime.Whole) : (Stored.of r).record = r := by
  rw [record, decode_of h]
  rfl

/-- Records read back under different keys have different keys. -/
theorem Decodes.clusteringKey_ne (hx : x.Decodes) (hy : y.Decodes) (h : x.key ≠ y.key) :
    x.record.clusteringKey ≠ y.record.clusteringKey := by
  obtain ⟨ht, -, hs, -⟩ := decode_eq_some.mp hx.decode_eq
  obtain ⟨ht', -, hs', -⟩ := decode_eq_some.mp hy.decode_eq
  intro he
  obtain ⟨hte, hse⟩ := Prod.mk.inj (toLex.injective he)
  refine h (Prod.ext ((DateTime.eq_iff_of_fromSql ht ht').mp hte) ?_)
  rw [key, key, ← hs, ← hs', hse]

end Stored

theorem map_record_of {rs : List Record} (h : ∀ r ∈ rs, r.eventTime.Whole) :
    (rs.map Stored.of).map Stored.record = rs := by
  rw [List.map_map]
  exact (List.map_congr_left fun r hr => Stored.record_of (h r hr)).trans (List.map_id _)

theorem map_of_record {xs : List Stored} (h : ∀ x ∈ xs, x.Decodes) :
    (xs.map Stored.record).map Stored.of = xs := by
  rw [List.map_map]
  exact (List.map_congr_left fun x hx => (h x hx).of_record).trans (List.map_id _)

theorem whole_of_decodeRows {rows : List RecordRow} {rs : List Record}
    (h : decodeRows rows = .ok rs) : ∀ r ∈ rs, r.eventTime.Whole := by
  unfold decodeRows at h
  split at h
  · cases h
  · rename_i rs' hm
    cases h
    obtain ⟨dec, hdec, rfl⟩ := exists_decoder hm
    rw [List.forall_mem_map]
    exact fun row hrow => DateTime.whole_of_fromSql (Cockroach.decode_eq_some (hdec row hrow)).1

/-! ### The cutover of records -/

variable {objectKey : BucketId → Option ℕ → List Record → String} {db db' : Db} {o o' : Objects}
  {w₀ w₀' : World BucketRef Stored String} {b : BucketId}

/-- The tables and the objects are a state of the cutover, in which everything decodes and no two
records of a bucket have one key. -/
structure Holds (objectKey : BucketId → Option ℕ → List Record → String) (s : Db × Objects)
    (w₀ : World BucketRef Stored String) : Prop where
  tracks : Tracks objectKey s w₀
  inv : Cutover.Inv w₀
  decodes : w₀.All Stored.Decodes
  objects : ∀ {key rs}, s.2 key = some rs → ∀ r ∈ rs, r.eventTime.Whole
  keyed : ∀ k, (w₀.applied k).Pairwise fun x y => x.key ≠ y.key

/-- Buckets are known by their primary key, and records are what they are. -/
def recordCoding (Good : BucketId → Prop) : Coding BucketRef Record :=
  ⟨refOf, id, Good, DurableTable.Routes⟩

theorem admits_recordCoding {Good : BucketId → Prop} (hgood : Admissible Good) (b : BucketId)
    (r : Record) (h : DurableTable.Routes b r) : (recordCoding Good).Admits b r :=
  ⟨h, hgood.canonical h.canonical, h.partitionKey⟩

variable {Good : BucketId → Prop}

/-- What a worker may ask of the cutover of records, it may ask of what is kept. -/
theorem legit_of_map {q : Request} (hd : w₀.All Stored.Decodes)
    (h : (recordCoding Good).Legit (w₀.map id Stored.record).facts q) :
    coding.Legit w₀.facts q := by
  cases q with
  | store q =>
      cases q with
      | publishArchive session key =>
          obtain ⟨rs, k, xs, hk, -, hs⟩ := h
          exact ⟨xs, hk ▸ hs⟩
      | claimArchive | claimCleanup | beginArchive => trivial
      | _ => exact h
  | archive q =>
      cases q with
      | putBucketGeneration b g rs =>
          obtain ⟨-, k, xs, hk, hrs, hs⟩ := h
          have hback : rs.map Stored.of = xs := by
            have hrs : xs.map Stored.record = rs := hrs.trans (List.map_id _)
            rw [← hrs, map_of_record (hd.snapped hs)]
          refine ⟨trivial, ?_⟩
          have hk : k = refOf b := hk
          subst hk
          exact hback ▸ hs
      | _ => exact h

/-- The records of a snapshot or an upload. -/
def carried : (q : Request) → q.Reply → List Record
  | .store (.snapshot _), .ok rs => rs
  | .archive (.putBucketGeneration _ _ rs), _ => rs
  | _, _ => []

/-- What is learned of what is kept is learned of the records. -/
theorem learned_map {q : Request} {r : q.Reply} (hw : ∀ x ∈ carried q r, x.eventTime.Whole)
    (hd : ∀ scan, q = .store (.discoverArchiveWork scan) →
      (recordCoding Good).Learned q r (w₀.map id Stored.record).facts)
    (h : coding.Learned q r w₀.facts) :
    (recordCoding Good).Learned q r (w₀.map id Stored.record).facts := by
  cases q with
  | store q =>
      cases q with
      | snapshot session =>
          rcases r with e | rs
          · trivial
          · exact ⟨_, _, rfl, (map_record_of hw).trans (List.map_id _).symm, h⟩
      | claimArchive | claimCleanup => rcases r with e | _ | session <;> exact h
      | beginArchive => rcases r with e | v <;> exact h
      | discoverArchiveWork scan => exact hd scan rfl
      | _ => exact h
  | archive q =>
      cases q with
      | putBucketGeneration b g rs =>
          rcases r with e | key
          · trivial
          · exact ⟨_, _, rfl, (map_record_of hw).trans (List.map_id _).symm, h⟩
      | _ => exact h

/-- Whatever the store answers is an effect of the operation. -/
theorem Serves.effect {q : StoreRequest} {r : q.Reply} (h : Serves q db r db') :
    ∃ env, Effect env db q r db' := by
  cases h with
  | exec env => exact ⟨env, exec_effect env q db⟩
  | discover => exact ⟨Sample.env "", .look rfl rfl fun _ _ => rfl⟩

/-- Snapshots and uploads are of whole records. -/
theorem Holds.carried (h : Holds objectKey (db, o) w₀) {q : Request} {r : q.Reply}
    {s' : Db × Objects} (hl : (recordCoding Good).Legit (w₀.map id Stored.record).facts q)
    (hs : (services objectKey).serve q (db, o) r s') :
    ∀ x ∈ carried q r, x.eventTime.Whole := by
  cases q with
  | store q =>
      cases q with
      | snapshot session =>
          rcases r with e | rs
          · exact List.forall_mem_nil _
          · obtain ⟨hs, -⟩ : Serves (.snapshot session) db (.ok rs) s'.1 ∧ s'.2 = o := hs
            obtain ⟨env, heffect⟩ := hs.effect
            generalize s'.1 = db' at heffect
            cases heffect with
            | look _ _ hs => cases hs rs rfl
            | snapshot _ _ _ hd => exact whole_of_decodeRows hd
      | _ => exact List.forall_mem_nil _
  | archive q =>
      cases q with
      | putBucketGeneration b g rs =>
          obtain ⟨-, k, xs, -, hrs, hsnap⟩ := hl
          have hrs : xs.map Stored.record = rs := hrs.trans (List.map_id _)
          subst hrs
          change ∀ x ∈ xs.map Stored.record, x.eventTime.Whole
          rw [List.forall_mem_map]
          exact fun x hx => (h.decodes.snapped hsnap x hx).whole
      | _ => exact List.forall_mem_nil _

/-- Objects stay whole. -/
theorem Holds.objects_serve (h : Holds objectKey (db, o) w₀) {q : Request} {r : q.Reply}
    {s' : Db × Objects} (hl : (recordCoding Good).Legit (w₀.map id Stored.record).facts q)
    (hs : (services objectKey).serve q (db, o) r s') {key : String} {rs : List Record}
    (hk : s'.2 key = some rs) : ∀ x ∈ rs, x.eventTime.Whole := by
  have hcarried := h.carried hl hs
  cases q with
  | store q =>
      obtain ⟨-, ho⟩ : Serves q db r s'.1 ∧ s'.2 = o := hs
      exact h.objects (ho ▸ hk)
  | archive q =>
      obtain ⟨hs, -⟩ : KeepsObjects objectKey q o r s'.2 ∧ s'.1 = db := hs
      generalize s'.2 = o' at hs hk
      cases hs with
      | putBucket => exact hl.elim
      | @putBucketGeneration b g rs' =>
          by_cases e : key = objectKey b (some g) rs'
          · subst e
            rw [Function.update_self] at hk
            cases hk
            exact hcarried
          · rw [Function.update_of_ne e] at hk
            exact h.objects hk
      | getBucket | failed => exact h.objects hk

variable (hkey : ∀ {b b' g g' rs rs'}, objectKey b (some g) rs = objectKey b' (some g') rs' →
  refOf b = refOf b' ∧ g = g')

include hkey in
/-- **Every operation of a worker is a step of the cutover of records.** -/
theorem Holds.serve (h : Holds objectKey (db, o) w₀) {q : Request} {r : q.Reply}
    {s' : Db × Objects} (hl : (recordCoding Good).Legit (w₀.map id Stored.record).facts q)
    (hs : (services objectKey).serve q (db, o) r s')
    (hd : ∀ scan, q = .store (.discoverArchiveWork scan) → ∀ F, (recordCoding Good).Learned q r F) :
    ∃ w₀', Cutover.Step (w₀.map id Stored.record) none (w₀'.map id Stored.record) ∧
      Holds objectKey s' w₀' ∧
      (recordCoding Good).Learned q r (w₀'.map id Stored.record).facts := by
  obtain ⟨w₀', hstep, htracks, hlearned⟩ :=
    (refinement hkey).serve h.tracks h.inv (legit_of_map h.decodes hl) hs
  refine ⟨w₀', hstep.map Function.injective_id, ⟨htracks, h.inv.step hstep,
    h.decodes.step (fun _ _ hn => by cases hn) hstep, h.objects_serve hl hs, fun k => ?_⟩,
    learned_map (h.carried hl hs) (fun scan hq => hd scan hq _) hlearned⟩
  rw [hstep.applied_eq k]
  exact h.keyed k

/-- A record whose primary key is new has another key than the records of its bucket. -/
theorem Holds.key_ne (h : Holds objectKey (db, o) w₀) {record : Record}
    (hp : b.partitionKey = record.partitionKey) (hhot : (rowOrNew db b).state = .hot)
    (hfresh : db.records.find? (RecordRow.new b record).key = none) :
    ∀ x ∈ w₀.applied (refOf b), (Stored.of record).key ≠ x.key := by
  intro x hx he
  have hc := h.tracks.cell_refOf b
  have hvis : w₀.visible (refOf b) = hotRows db (refOf b) := by
    simp only [World.visible, hc, MetadataRow.phase, hhot]
  rw [← (h.inv.visible_perm (refOf b)).mem_iff, hvis] at hx
  obtain ⟨row, hrow, rfl⟩ := List.mem_map.mp hx
  have hrow : row ∈ rowsOf db (refOf b) := (List.perm_insertionSort _ _).mem_iff.mp hrow
  obtain ⟨hin, href⟩ := List.mem_filter.mp hrow
  obtain ⟨ht, hs⟩ := Prod.mk.inj he
  have hkey : row.key = (RecordRow.new b record).key := by
    rw [RecordRow.key, RecordRow.key, of_decide_eq_true href, ref_new hp]
    exact Prod.ext rfl (Prod.ext ht.symm hs.symm)
  exact Table.find?_eq_none_iff.mp hfresh row hin hkey

include hkey in
/-- An append is an append to the cutover of records, or nothing. -/
theorem Holds.append (h : Holds objectKey (db, o) w₀) {record : Record}
    {a : Except DurableBucketStoreError Unit} {s' : Db × Objects}
    (hp : b.partitionKey = record.partitionKey)
    (hs : (services objectKey).serve (.store (.append b record)) (db, o) a s')
    (hw : TakesWhole (.append b record) a) :
    ∃ w₀', Cutover.Step (w₀.map id Stored.record) ((recordCoding Good).appended b record a)
        (w₀'.map id Stored.record) ∧ Holds objectKey s' w₀' := by
  obtain ⟨w₀', hstep, htracks⟩ := (refinement hkey).append h.tracks h.inv trivial hp hs
  obtain ⟨hs, ho⟩ : Serves (.append b record) db a s'.1 ∧ s'.2 = o := hs
  have hobjects : ∀ {key rs}, s'.2 key = some rs → ∀ r ∈ rs, r.eventTime.Whole :=
    fun hk => h.objects (ho ▸ hk)
  cases a with
  | error e =>
      refine ⟨w₀', hstep.map Function.injective_id, htracks, h.inv.step hstep,
        h.decodes.step (fun _ _ hn => by cases hn) hstep, hobjects, fun k => ?_⟩
      rw [hstep.applied_eq k]
      exact h.keyed k
  | ok u =>
      have hw : record.eventTime.Whole := hw
      have hlabel : (coding.appended b record (.ok u)).map (Prod.map id Stored.record) =
          (recordCoding Good).appended b record (.ok u) :=
        congrArg (fun r => some (refOf b, r)) (Stored.record_of hw)
      refine ⟨w₀', hlabel ▸ hstep.map Function.injective_id, htracks, h.inv.step hstep,
        h.decodes.step ?_ hstep, hobjects, fun k => ?_⟩
      · rintro k x ⟨⟩
        exact ⟨record, Stored.decode_of hw⟩
      · rw [hstep.applied_eq k]
        by_cases e : refOf b = k
        · subst e
          have hkeys : ∀ x ∈ w₀.applied (refOf b), (Stored.of record).key ≠ x.key := by
            obtain ⟨env, heffect⟩ := hs.effect
            generalize s'.1 = db' at heffect
            cases heffect with
            | look ha => cases ha
            | append _ hhot _ hfresh => exact h.key_ne hp hhot hfresh
          simpa [Coding.appended, coding] using ⟨hkeys, h.keyed (refOf b)⟩
        · simpa [Coding.appended, coding, e] using h.keyed k

variable (T : StoreTier Good) (A : ArchiveTier Good objectKey)

/-- The tiers are a state of the cutover of records. -/
def TiersTrack (s : (wholeTiers T A).State) (w : World BucketRef Record String) : Prop :=
  T.Inv s.1 ∧ GoodRows Good (T.db s.1) ∧ ∃ o, A.Keeps s.2 o ∧
    ∃ w₀, Holds objectKey (T.db s.1, o) w₀ ∧ w = w₀.map id Stored.record

variable {T A} {w : World BucketRef Record String} {s s' : (wholeTiers T A).State}
  (hgood : Admissible Good)

include hgood in
/-- The rows that a worker may have inserted. -/
theorem goodRows_of_legit {q : StoreRequest} {r : q.Reply}
    {F : Cutover.Facts BucketRef Record String} (h : GoodRows Good db)
    (hl : (recordCoding Good).Legit F (.store q))
    (hs : Serves q db r db') : GoodRows Good db' := by
  refine h.step hgood (fun b hb => ?_) hs
  cases q with
  | append => exact hl.elim
  | beginArchive =>
      cases hb
      exact hl
  | _ => cases hb

include hkey hgood in
theorem TiersTrack.serve {q : Request} {r : q.Reply} (h : TiersTrack T A s w)
    (hl : (recordCoding Good).Legit w.facts q) (hs : (wholeTiers T A).serve q s r s') :
    ∃ w', Cutover.Step w none w' ∧ TiersTrack T A s' w' ∧
      (recordCoding Good).Learned q r w'.facts := by
  obtain ⟨t, x⟩ := s
  obtain ⟨t', x'⟩ := s'
  obtain ⟨hi, hrows, o, hk, w₀, h, rfl⟩ := h
  cases q with
  | store q =>
      obtain ⟨⟨hs, -⟩, rfl⟩ : (T.serve q t r t' ∧ TakesWhole q r) ∧ x' = x := hs
      obtain ⟨htables, hi'⟩ := T.tables hi hs
      have hrows' : GoodRows Good (T.db t') := goodRows_of_legit hgood hrows hl htables
      have hlisted : ∀ scan, Request.store q = .store (.discoverArchiveWork scan) →
          ∀ F, (recordCoding Good).Learned (.store q) r F := by
        rintro scan hq F
        cases hq
        rcases r with e | work
        · trivial
        · exact T.discovers hi hrows hs
      have hserve : (services objectKey).serve (.store q) (T.db t, o) r (T.db t', o) :=
        ⟨htables, rfl⟩
      obtain ⟨w₀', hstep, h', hlearned⟩ := h.serve hkey hl hserve hlisted
      exact ⟨_, hstep, ⟨hi', hrows', o, hk, w₀', h', rfl⟩, hlearned⟩
  | archive q =>
      obtain ⟨hs, rfl⟩ : A.serve q x r x' ∧ t' = t := hs
      cases q with
      | putBucket => exact hl.elim
      | putBucketGeneration b g rs =>
          obtain ⟨hb, k, xs, -, hrs, hsnap⟩ := id hl
          have hwhole : ∀ y ∈ rs, y.eventTime.Whole := by
            have hrs : xs.map Stored.record = rs := hrs.trans (List.map_id _)
            rw [← hrs, List.forall_mem_map]
            exact fun y hy => (h.decodes.snapped hsnap y hy).whole
          obtain ⟨o', hput, hk'⟩ := A.put hk hb hwhole hs
          have hserve : (services objectKey).serve (.archive (.putBucketGeneration b g rs))
              (T.db t', o) r (T.db t', o') := ⟨hput, rfl⟩
          obtain ⟨w₀', hstep, h', hlearned⟩ := h.serve hkey hl hserve fun scan hq => nomatch hq
          exact ⟨_, hstep, ⟨hi, hrows, o', hk', w₀', h', rfl⟩, hlearned⟩
      | getBucket b key =>
          -- no worker reads an object, and reads change nothing
          exact ⟨_, .skip, ⟨hi, hrows, o, (A.get hk hs).1, w₀, h, rfl⟩, trivial⟩

include hkey hgood in
theorem TiersTrack.append {record : Record} {a : Except DurableBucketStoreError Unit}
    (h : TiersTrack T A s w) (hb : Good b) (hp : b.partitionKey = record.partitionKey)
    (hs : (wholeTiers T A).serve (.store (.append b record)) s a s') :
    ∃ w', Cutover.Step w ((recordCoding Good).appended b record a) w' ∧ TiersTrack T A s' w' := by
  obtain ⟨t, x⟩ := s
  obtain ⟨t', x'⟩ := s'
  obtain ⟨hi, hrows, o, hk, w₀, h, rfl⟩ := h
  obtain ⟨⟨hs, hwhole⟩, rfl⟩ : (T.serve (.append b record) t a t' ∧
    TakesWhole (.append b record) a) ∧ x' = x := hs
  obtain ⟨htables, hi'⟩ := T.tables hi hs
  have hrows' : GoodRows Good (T.db t') :=
    hrows.step hgood (by rintro b' ⟨⟩; exact hb) htables
  have hserve : (services objectKey).serve (.store (.append b record)) (T.db t, o) a (T.db t', o) :=
    ⟨htables, rfl⟩
  obtain ⟨w₀', hstep, h'⟩ := h.append hkey hp hserve hwhole
  exact ⟨_, hstep, hi', hrows', o, hk, w₀', h', rfl⟩

variable (T A) in
/-- **The tiers refine the cutover of records**, if all that is appended is whole. -/
def recordRefinement : Refinement (wholeTiers T A) (recordCoding Good) where
  Tracks := TiersTrack T A
  serve h _ := h.serve hkey hgood
  append h _ := h.append hkey hgood

/-! ### Reads -/

variable {range : TimeRange} {after : Option Cursor} {limit : ℕ}

/-- Whole bounds are sent as they are. -/
theorem aligned_of_whole (hstart : range.start.Whole) (hend : range.endAt.Whole)
    (hafter : ∀ c ∈ after, c.eventTime.Whole) : Aligned b range after := by
  have hlow : sqlLow range after = exactLow range after := by
    unfold sqlLow exactLow
    rw [hstart.toSql_eq.1]
    cases after with
    | none => rfl
    | some c => rw [Option.map_some, Option.map_some, Cursor.cut, if_pos (hafter c rfl)]
  exact .inl ⟨by rw [hlow], by rw [hend.toSql_eq.1]⟩

/-- The rows of a bucket that is not archived are what its readers are given. -/
theorem Holds.stores (h : Holds objectKey (db, o) w₀) (hhot : IsHot db b)
    (hin : ∀ x ∈ w₀.visible (refOf b), b.contains x.record.eventTime)
    (hlen : (w₀.visible (refOf b)).length < 2 ^ 63) :
    (∀ row ∈ rowsOf db (refOf b), row.decode = some row.stored.record) ∧
      Stores db b ((w₀.visible (refOf b)).map Stored.record) := by
  have hc := h.tracks.cell_refOf b
  have hvis : w₀.visible (refOf b) = hotRows db (refOf b) := by
    have hstate : (rowOrNew db b).state ≠ .archived := by
      unfold rowOrNew
      cases hm : db.metadata.find? (refOf b) with
      | none => exact RowState.noConfusion
      | some m => exact hhot m hm
    simp only [World.visible, hc, MetadataRow.phase]
    cases hs : (rowOrNew db b).state with
    | hot | archiving => rfl
    | archived => exact absurd hs hstate
  have hdec : ∀ row ∈ rowsOf db (refOf b), row.decode = some row.stored.record := by
    intro row hrow
    have hmem : row.stored ∈ (w₀.cell (refOf b)).rows := by
      rw [hc]
      exact List.mem_map_of_mem ((List.perm_insertionSort _ _).mem_iff.mpr hrow)
    exact (h.decodes.rows _ _ hmem).decode_eq
  refine ⟨hdec, ⟨(rowsOf db (refOf b)).map fun row => row.stored.record, ?_, ?_⟩, ?_, ?_⟩
  · rw [Fallible.mapM_eq_some_iff, List.forall₂_map_right_iff, List.forall₂_same]
    exact hdec
  · rw [hvis, hotRows, List.map_map]
    exact (List.perm_insertionSort _ _).map _
  · rw [List.forall_mem_map]
    exact hin
  · rw [List.length_map]
    exact hlen

/-- **Reads of a bucket are answered as the cutover answers them**, if the bounds are whole. -/
theorem Holds.readRange (h : Holds objectKey (db, o) w₀) (hb : b.Canonical)
    (hstart : range.start.Whole) (hend : range.endAt.Whole)
    (hafter : ∀ c ∈ after, c.eventTime.Whole)
    (hin : ∀ x ∈ w₀.visible (refOf b), b.contains x.record.eventTime)
    (hlen : (w₀.visible (refOf b)).length < 2 ^ 63)
    {r : StoreRequest.Reply (.readRange b range after limit)}
    (hs : Serves (.readRange b range after limit) db r db') :
    db' = db ∧ ((∃ key d, (w₀.cell (refOf b)).phase = .archived key d ∧ r = .ok (.archive key)) ∨
      r = .ok (.hot (selectArchived range after limit
        ((w₀.visible (refOf b)).map Stored.record)))) := by
  cases hs with
  | exec env =>
      have hdb : (exec env (.readRange b range after limit) db).2 = db := by
        have heffect := exec_effect env (.readRange b range after limit) db
        generalize (exec env (.readRange b range after limit) db).2 = db' at heffect
        cases heffect with
        | look => rfl
      refine ⟨hdb, ?_⟩
      by_cases ha : ∃ m, db.metadata.find? (refOf b) = some m ∧ m.state = .archived
      · obtain ⟨m, hm, hstate⟩ := ha
        obtain ⟨key, hkey⟩ := Option.ne_none_iff_exists'.mp
          (owner_of_archived (Table.check_of_find? hm) hstate).2
        refine .inl ⟨key, m.hotDeleted, ?_, readRange_archived ⟨m, hm, hstate, hkey⟩⟩
        rw [h.tracks.cell_of_find? hm]
        simp [MetadataRow.phase, hstate, hkey]
      · have hhot : IsHot db b := fun m hm hstate => ha ⟨m, hm, hstate⟩
        obtain ⟨hdec, hstores⟩ := h.stores hhot hin hlen
        have hread : (exec env (.readRange b range after limit) db).1 = _ := readRange_hot hhot hdec
        have hvia : readVia env db (oneObject []) b range after limit = _ :=
          readVia_of_aligned hb (aligned_of_whole hstart hend hafter) hstores hhot
        rw [readVia_of_hot hread] at hvia
        rw [hread, Except.ok.inj hvia]
        exact .inr rfl

/-- **The object of an archived bucket is what its readers are given.** -/
theorem Holds.object_eq (h : Holds objectKey (db, o) w₀) {key : String} {d : Bool}
    (hp : (w₀.cell (refOf b)).phase = .archived key d) :
    KeyOf objectKey b key ∧ o key = some ((w₀.visible (refOf b)).map Stored.record) := by
  obtain ⟨g, xs, hstored, -⟩ := h.inv.published hp
  have hobject := h.inv.stored_object hstored
  have hvis : w₀.visible (refOf b) = xs := by
    simp only [World.visible, hp, hobject, Option.getD_some]
  rw [h.tracks.object] at hobject
  obtain ⟨rs, hrs, rfl⟩ := Option.map_eq_some_iff.mp hobject
  rw [hvis, map_record_of (h.objects hrs)]
  obtain ⟨b', records, href, hk⟩ := h.tracks.key hstored
  exact ⟨⟨b', g, records, href, hk⟩, hrs⟩

end Cockroach
end Pulpitum
