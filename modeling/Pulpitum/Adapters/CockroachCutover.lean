import Mathlib
import Pulpitum.Adapters.CockroachDurable
import Pulpitum.Adapters.CockroachTime
import Pulpitum.Application.NoLoss
import Pulpitum.Application.Undisturbed

/-!
# Adapters — Cockroach cutover

`CockroachDurableBucketStore`, with an archive store that keeps its objects, refines the abstract
cutover.  A bucket is its metadata row with its record rows in key order; a record counts as what
the records table keeps of it.

* `refinement`: every operation of the store is a step of the cutover.
* `no_loss`: over every run of appenders and archival workers in which records are appended to
  buckets of their own partition, **the visible contents of a bucket hold every acknowledged record
  exactly once**, and nothing that was not appended.
* `misfiled_append_lost`: a record appended to a bucket of another partition is acknowledged and may
  be visible nowhere.
-/

namespace Pulpitum
namespace Cockroach

open Cutover (World)

/-! ### Records as the table keeps them -/

/-- What the records table keeps of a record, its bucket aside. -/
@[ext]
structure Stored where
  partitionKey : PartitionKey
  eventTime : SqlTime
  sortKey : SortKey
  value : List Text.Byte
deriving DecidableEq

/-- What is kept of a record. -/
def Stored.of (r : Record) : Stored := ⟨r.partitionKey, r.eventTime.toSql, r.sortKey, r.value⟩

/-- What is kept in a row. -/
def RecordRow.stored (r : RecordRow) : Stored := ⟨r.partitionKey, r.eventTime, r.sortKey, r.value⟩

theorem stored_of_decode {row : RecordRow} {r : Record} (h : row.decode = some r) :
    Stored.of r = row.stored := by
  simp only [RecordRow.decode, Option.bind_eq_bind, Option.bind_eq_some_iff] at h
  obtain ⟨t, ht, h⟩ := h
  cases h
  simp [Stored.of, RecordRow.stored, DateTime.toSql_of_fromSql ht]

theorem stored_of_decodeRows {rows : List RecordRow} {rs : List Record}
    (h : decodeRows rows = .ok rs) : rs.map Stored.of = rows.map RecordRow.stored := by
  unfold decodeRows at h
  split at h
  · cases h
  · rename_i rs' hm
    obtain rfl := Except.ok.inj h
    clear h
    induction rows generalizing rs' with
    | nil => cases hm; rfl
    | cons row rows ih =>
        simp only [List.mapM_cons, Option.bind_eq_bind, Option.bind_eq_some_iff] at hm
        obtain ⟨r, hr, rs, hrs, h⟩ := hm
        cases h
        simp [stored_of_decode hr, ih rs hrs]

/-! ### Buckets -/

/-- The phase a metadata row stands for. -/
def MetadataRow.phase (m : MetadataRow) : Cutover.Phase String :=
  match m.state with
  | .hot => .hot
  | .archiving => .archiving
  | .archived => .archived (m.archiveObjectKey.getD "") m.hotDeleted

/-- The hot rows of a bucket, in key order. -/
def hotRows (db : Db) (k : BucketRef) : List Stored :=
  (sortRows (rowsOf db k)).map RecordRow.stored

/-- A bucket of the database. -/
def cellOf (db : Db) (k : BucketRef) : Cutover.Cell Stored String :=
  match db.metadata.find? k with
  | some m => ⟨m.phase, m.generation, hotRows db k⟩
  | none => ⟨.hot, 0, hotRows db k⟩

/-- The visible contents of a bucket: its hot rows while it is hot or archiving, the object under
its `archive_object_key` once it is archived. -/
def visible (db : Db) (o : Objects) (k : BucketRef) : List Stored :=
  match db.metadata.find? k with
  | some m =>
      match m.state, m.archiveObjectKey with
      | .archived, some key => ((o key).getD []).map Stored.of
      | _, _ => hotRows db k
  | none => hotRows db k

variable {db db' : Db} {o o' : Objects} {k : BucketRef} {b : BucketId} {m : MetadataRow}

theorem cellOf_refOf (db : Db) (b : BucketId) :
    cellOf db (refOf b) =
      ⟨(rowOrNew db b).phase, (rowOrNew db b).generation, hotRows db (refOf b)⟩ := by
  unfold cellOf rowOrNew
  cases db.metadata.find? (refOf b) <;> rfl

theorem rowOrNew_of_find? (h : db.metadata.find? (refOf b) = some m) : rowOrNew db b = m := by
  rw [rowOrNew, h]; rfl

theorem cellOf_setsRow (h : SetsRow db k m db')
    (hr : ∀ k', k' ≠ k → hotRows db' k' = hotRows db k') :
    cellOf db' = Function.update (cellOf db) k ⟨m.phase, m.generation, hotRows db' k⟩ := by
  funext k'
  by_cases e : k' = k
  · subst e
    simp [cellOf, h.find?]
  · rw [Function.update_of_ne e]
    simp [cellOf, h.find?, Ne.symm e, hr k' e]

theorem hotRows_congr (h : db'.records = db.records) (k : BucketRef) :
    hotRows db' k = hotRows db k := by
  rw [hotRows, hotRows, rowsOf_congr h]

/-- A new row goes to the bucket it refers to. -/
theorem hotRows_append {row : RecordRow} (h : db'.records.rows = db.records.rows ++ [row]) :
    (hotRows db' row.ref).Perm (row.stored :: hotRows db row.ref) ∧
      ∀ k, k ≠ row.ref → hotRows db' k = hotRows db k := by
  constructor
  · refine ((List.perm_insertionSort _ _).map _).trans ?_
    rw [rowsOf_append h, if_pos rfl, hotRows, ← List.map_cons]
    refine List.Perm.map _ (List.perm_append_comm.trans ?_)
    exact (List.perm_insertionSort _ _).symm.cons row
  · intro k hk
    rw [hotRows, hotRows, rowsOf_append h, if_neg (Ne.symm hk), List.append_nil]

/-- Deleting the rows of one bucket. -/
theorem hotRows_delete (h : db'.records.rows = db.records.rows.filter fun r => r.ref ≠ k) :
    hotRows db' k = [] ∧ ∀ k', k' ≠ k → hotRows db' k' = hotRows db k' := by
  constructor
  · rw [hotRows, rowsOf_delete h, if_pos rfl]
    rfl
  · intro k' hk
    rw [hotRows, hotRows, rowsOf_delete h, if_neg (Ne.symm hk)]

/-! ### The stores -/

/-- What the store can answer, if the database is reached and its answer comes back; that either
fails is a step of the one who asks (`System.StepOf.lose`, `Task.Step`, `Scan.Attempt.refuse`).  The
two statements of `discover_archive_work` are not one transaction and its answer is only advice, so
any answer is allowed. -/
inductive Serves : (q : StoreRequest) → Db → q.Reply → Db → Prop where
  | exec (env : Env) (q : StoreRequest) (db : Db) : Serves q db (exec env q db).1 (exec env q db).2
  | discover (scan : ArchiveScan) (work : List ArchiveWork) (db : Db) :
      Serves (.discoverArchiveWork scan) db (.ok work) db

/-- The store, next to an archive store that keeps its objects under `objectKey`. -/
def services (objectKey : BucketId → Option ℕ → List Record → String) : Services :=
  .of Serves (KeepsObjects objectKey)

/-- Buckets are known by their primary key, archival is asked for any bucket, and every append gives
a record of its bucket's partition. -/
def coding : Coding BucketRef Stored :=
  ⟨refOf, Stored.of, fun _ => True, fun b r => b.partitionKey = r.partitionKey⟩

/-- The tables and the objects are a state of the cutover. -/
structure Tracks (objectKey : BucketId → Option ℕ → List Record → String) (s : Db × Objects)
    (w : World BucketRef Stored String) : Prop where
  cell : w.cell = cellOf s.1
  object : ∀ key, w.object key = (s.2 key).map (List.map Stored.of)
  key : ∀ {k g rs key}, w.facts.stored k g rs key →
    ∃ b records, refOf b = k ∧ objectKey b (some g) records = key
  nodup : ∀ k, (w.applied k).Nodup

variable {objectKey : BucketId → Option ℕ → List Record → String}
  {w : World BucketRef Stored String} {env : Env}

namespace Tracks

theorem cell_refOf (h : Tracks objectKey (db, o) w) (b : BucketId) :
    w.cell (refOf b) =
      ⟨(rowOrNew db b).phase, (rowOrNew db b).generation, hotRows db (refOf b)⟩ := by
  rw [h.cell]; exact cellOf_refOf db b

theorem cell_of_find? (h : Tracks objectKey (db, o) w)
    (hk : db.metadata.find? (refOf b) = some m) :
    w.cell (refOf b) = ⟨m.phase, m.generation, hotRows db (refOf b)⟩ := by
  rw [h.cell_refOf, rowOrNew_of_find? hk]

/-- One metadata row changes. -/
theorem set (h : Tracks objectKey (db, o) w) {c : Cutover.Cell Stored String}
    (hm : SetsRow db k m db') (hr : ∀ k', k' ≠ k → hotRows db' k' = hotRows db k')
    (hc : c = ⟨m.phase, m.generation, hotRows db' k⟩) : Tracks objectKey (db', o) (w.set k c) where
  cell := by
    rw [cellOf_setsRow hm hr, hc, ← h.cell]; rfl
  object := h.object
  key := h.key
  nodup := h.nodup

/-- One metadata row changes, and no record row does. -/
theorem setRow (h : Tracks objectKey (db, o) w) {c : Cutover.Cell Stored String}
    (hm : SetsRow db k m db') (hr : db'.records = db.records)
    (hc : c = ⟨m.phase, m.generation, hotRows db k⟩) : Tracks objectKey (db', o) (w.set k c) :=
  h.set hm (fun k' _ => hotRows_congr hr k') (by rw [hotRows_congr hr]; exact hc)

/-- One metadata row changes in what the cutover does not see. -/
theorem keepRow (h : Tracks objectKey (db, o) w) {m' : MetadataRow}
    (hk : db.metadata.find? (refOf b) = some m) (hm : SetsRow db (refOf b) m' db')
    (hr : db'.records = db.records) (hp : m'.phase = m.phase)
    (hg : m'.generation = m.generation) : Tracks objectKey (db', o) w := by
  have hset := h.setRow (c := w.cell (refOf b)) hm hr (by rw [h.cell_of_find? hk, hp, hg])
  rwa [World.set, Function.update_eq_self] at hset

end Tracks

theorem generation_of_heldBy {session : ArchiveSession} {now : SqlTime}
    (h : heldBy m session now = true) : m.generation = session.generation := by
  simp only [heldBy, Bool.and_eq_true, decide_eq_true_eq] at h
  exact h.1.1

/-- **Every operation of a worker is a step of the cutover.** -/
theorem Tracks.effect (h : Tracks objectKey (db, o) w) {q : StoreRequest} {r : q.Reply}
    (hl : coding.Legit w.facts (.store q)) (he : Effect env db q r db') :
    ∃ w', Cutover.Step w none w' ∧ Tracks objectKey (db', o) w' ∧
      coding.Learned (.store q) r w'.facts := by
  cases he with
  | look _ hi hs =>
      refine ⟨w, .skip, h, Coding.Learned.of_look hi hs ?_⟩
      rintro scan rfl
      cases r with
      | error => trivial
      | ok => exact fun _ _ => trivial
  | append => exact hl.elim
  | @claimArchive b d m t _ hk hp hm hr =>
      have hc := h.cell_of_find? hk
      refine ⟨_, .claim ?_, h.setRow hm hr (by rw [hc]; rfl), rfl⟩
      rw [hc]
      rcases hp with hp | ⟨hp, -⟩ <;> simp [MetadataRow.phase, hp]
  | @claimCleanup b d m t _ hk hp hm hr =>
      have hc := h.cell_of_find? hk
      have hphase : (w.cell (refOf b)).phase = .archived (m.archiveObjectKey.getD "") false := by
        rw [hc]
        simp [MetadataRow.phase, hp]
      exact ⟨_, .claimCleanup hphase, h.setRow hm hr (by rw [hc]; rfl), rfl⟩
  | @beginArchive b _ hp hm hr =>
      have hc := h.cell_refOf b
      refine ⟨_, .claim ?_, h.setRow hm hr (by rw [hc]; rfl), rfl⟩
      rw [hc]
      rcases hp with hp | ⟨hp, -⟩ <;> simp [MetadataRow.phase, hp]
  | renew hk _ hm hr => exact ⟨w, .skip, h.keepRow hk hm hr rfl rfl, trivial⟩
  | @deferArchive session d m t _ hk hp _ hm hr =>
      have hc := h.cell_of_find? hk
      refine ⟨_, .reopen ?_, h.setRow hm hr (by rw [hc]; rfl), trivial⟩
      rw [hc]
      simp [MetadataRow.phase, hp]
  | deferCleanup hk _ _ hm hr => exact ⟨w, .skip, h.keepRow hk hm hr rfl rfl, trivial⟩
  | @snapshot session m records hk hp held hd =>
      have hc := h.cell_of_find? hk
      have hrows := stored_of_decodeRows hd
      refine ⟨_, .snapshot (b := refOf session.bucket) ?_,
        ⟨h.cell, h.object, h.key, h.nodup⟩, ?_⟩
      · rw [hc]
        simp [MetadataRow.phase, hp]
      · rw [hc]
        exact .inr ⟨rfl, (generation_of_heldBy held).symm, hrows⟩
  | @publish session key m _ hk hp held hm hr =>
      obtain ⟨rs, hs⟩ := hl
      have hc := h.cell_of_find? hk
      have hstored : w.facts.stored (refOf session.bucket) (w.cell (refOf session.bucket)).gen
          rs key := by
        rw [hc]
        exact generation_of_heldBy held ▸ hs
      refine ⟨_, .publish ?_ hstored, h.setRow hm hr (by rw [hc]; rfl), trivial⟩
      rw [hc]
      simp [MetadataRow.phase, hp]
  | @deleteHot session m _ hk hp _ hm hr =>
      have hc := h.cell_of_find? hk
      obtain ⟨hnil, hrest⟩ := hotRows_delete hr
      have hphase : (w.cell (refOf session.bucket)).phase =
          .archived (m.archiveObjectKey.getD "") false := by
        rw [hc]
        simp [MetadataRow.phase, hp]
      refine ⟨_, .clean hphase, h.set hm hrest ?_, trivial⟩
      rw [hc, hnil]
      simp [MetadataRow.phase, hp]
  | @abort session m _ hk hp _ hm hr =>
      have hc := h.cell_of_find? hk
      refine ⟨_, .reopen ?_, h.setRow hm hr (by rw [hc]; rfl), trivial⟩
      rw [hc]
      simp [MetadataRow.phase, hp]

/-- A record whose key is new is not among the hot rows of its bucket. -/
theorem notMem_hotRows {record : Record} (hp : b.partitionKey = record.partitionKey)
    (hfresh : db.records.find? (RecordRow.new b record).key = none) :
    Stored.of record ∉ hotRows db (refOf b) := by
  intro hmem
  obtain ⟨row, hrow, he⟩ := List.mem_map.mp hmem
  have hrow : row ∈ rowsOf db (refOf b) := (List.perm_insertionSort _ _).mem_iff.mp hrow
  obtain ⟨hin, href⟩ := List.mem_filter.mp hrow
  have hkey : row.key = (RecordRow.new b record).key := by
    obtain ⟨-, ht, hs, -⟩ := Stored.mk.inj he
    rw [RecordRow.key, RecordRow.key, of_decide_eq_true href, ref_new hp, ht, hs]
    rfl
  exact Table.find?_eq_none_iff.mp hfresh row hin hkey

/-- An append is an append to the cutover, or nothing. -/
theorem Tracks.append (h : Tracks objectKey (db, o) w) (hi : Cutover.Inv w) {record : Record}
    {a : Except DurableBucketStoreError Unit} (hp : b.partitionKey = record.partitionKey)
    (he : Effect env db (.append b record) a db') :
    ∃ w', Cutover.Step w (coding.appended b record a) w' ∧ Tracks objectKey (db', o) w' := by
  cases he with
  | look ha =>
      match a with
      | .ok () => cases ha
      | .error _ => exact ⟨w, .skip, h⟩
  | append _ hhot hm hfresh hr =>
      obtain ⟨hperm, hrest⟩ := hotRows_append hr
      rw [ref_new hp] at hperm hrest
      have hc := h.cell_refOf b
      have hphase : (w.cell (refOf b)).phase = .hot := by
        rw [hc]
        simp [MetadataRow.phase, hhot]
      have hrows : (hotRows db' (refOf b)).Perm (Stored.of record :: (w.cell (refOf b)).rows) := by
        rw [hc]; exact hperm
      have hset := h.set (c := { w.cell (refOf b) with rows := hotRows db' (refOf b) }) hm hrest
        (by rw [hc])
      -- the bucket is hot, so its rows are the appends that took effect
      have hnew : Stored.of record ∉ w.applied (refOf b) := by
        have hvis : w.visible (refOf b) = hotRows db (refOf b) := by
          simp only [World.visible, hphase]
          rw [hc]
        rw [← (hi.visible_perm (refOf b)).mem_iff, hvis]
        exact notMem_hotRows hp hfresh
      refine ⟨_, .append hphase hrows, hset.cell, hset.object, hset.key, fun k => ?_⟩
      by_cases e : k = refOf b
      · subst e
        change (Function.update w.applied (refOf b) _ (refOf b)).Nodup
        rw [Function.update_self]
        exact List.nodup_cons.mpr ⟨hnew, h.nodup _⟩
      · change (Function.update w.applied (refOf b) _ k).Nodup
        rw [Function.update_of_ne e]
        exact h.nodup k

/-- An upload puts a snapshot under a key of its own. -/
theorem Tracks.archive (hkey : ∀ {b b' g g' rs rs'}, objectKey b (some g) rs =
      objectKey b' (some g') rs' → refOf b = refOf b' ∧ g = g')
    (h : Tracks objectKey (db, o) w) {q : ArchiveRequest} {r : q.Reply}
    (hl : coding.Legit w.facts (.archive q)) (hs : KeepsObjects objectKey q o r o') :
    ∃ w', Cutover.Step w none w' ∧ Tracks objectKey (db, o') w' ∧
      coding.Learned (.archive q) r w'.facts := by
  cases hs with
  | putBucket => exact hl.elim
  | @putBucketGeneration b g rs =>
      have hown : ∀ {k g' rs'}, w.facts.stored k g' rs' (objectKey b (some g) rs) →
          k = refOf b ∧ g' = g := by
        intro k g' rs' hst
        obtain ⟨b', records, rfl, hk⟩ := h.key hst
        exact hkey hk
      refine ⟨_, .put hl.2 hown, ⟨h.cell, ?_, ?_, h.nodup⟩, .inr ⟨rfl, rfl, rfl, rfl⟩⟩
      · intro key
        by_cases e : key = objectKey b (some g) rs
        · subst e
          dsimp only
          rw [Function.update_self, Function.update_self]; rfl
        · simp [Function.update_of_ne e, h.object]
      · rintro k g' rs' key (hst | ⟨rfl, rfl, -, rfl⟩)
        · exact h.key hst
        · exact ⟨b, rs, rfl, rfl⟩
  | getBucket => exact ⟨w, .skip, h, trivial⟩
  | failed => exact ⟨w, .skip, h, by cases q <;> trivial⟩

/-- **The store refines the cutover**, if no two buckets or generations share an object key. -/
def refinement (hkey : ∀ {b b' g g' rs rs'}, objectKey b (some g) rs =
      objectKey b' (some g') rs' → refOf b = refOf b' ∧ g = g') :
    Refinement (services objectKey) coding where
  Tracks := Tracks objectKey
  serve := by
    rintro ⟨db, o⟩ ⟨db', o'⟩ w q r h _ hl hs
    cases q with
    | store q =>
        obtain ⟨hs, ho⟩ : Serves q db r db' ∧ o' = o := hs
        subst ho
        cases hs with
        | exec env => exact h.effect hl (exec_effect env q db)
        | discover => exact ⟨w, .skip, h, fun _ _ => trivial⟩
    | archive q =>
        obtain ⟨hs, hdb⟩ : KeepsObjects objectKey q o r o' ∧ db' = db := hs
        subst hdb
        exact h.archive hkey hl hs
  append := by
    rintro ⟨db, o⟩ ⟨db', o'⟩ w b record a h hi _ hp hs
    obtain ⟨hs, ho⟩ : Serves (.append b record) db a db' ∧ o' = o := hs
    subst ho
    cases hs with
    | exec env => exact h.append hi hp (exec_effect env _ db)

/-! ### No record is lost -/

/-- The visible contents of a bucket are those of the cutover. -/
theorem Tracks.visible_eq (h : Tracks objectKey (db, o) w) (k : BucketRef) :
    w.visible k = visible db o k := by
  have hcell : w.cell k = cellOf db k := congrFun h.cell k
  unfold visible
  cases hm : db.metadata.find? k with
  | none => simp [World.visible, hcell, cellOf, hm]
  | some m =>
      have hinv := (Table.check_of_find? hm).2.1
      cases hs : m.state with
      | hot => simp [World.visible, hcell, cellOf, hm, MetadataRow.phase, hs]
      | archiving => simp [World.visible, hcell, cellOf, hm, MetadataRow.phase, hs]
      | archived =>
          obtain ⟨key, hkey⟩ : ∃ key, m.archiveObjectKey = some key := by
            rcases hinv with hi | hi | hi
            · rw [hs] at hi; cases hi.1
            · rw [hs] at hi; cases hi.1
            · exact Option.ne_none_iff_exists'.mp hi.2.2
          simp only [World.visible, hcell, cellOf, hm, MetadataRow.phase, hs, hkey,
            Option.getD_some, h.object]
          cases o key <;> rfl

/-- **Archival neither loses nor duplicates a record**, if every append gives a record of its
bucket's partition.  In every state that appenders and archival workers can reach from the empty
stores, whatever is lost, late or crashes, the visible contents of a bucket hold every acknowledged
record exactly once, and only records whose append took effect. -/
theorem no_loss {objectKey : BucketId → Option ℕ → List Record → String}
    (hkey : ∀ {b b' g g' rs rs'}, objectKey b (some g) rs = objectKey b' (some g') rs' →
      refOf b = refOf b' ∧ g = g')
    {s : System (services objectKey).State}
    (hr : System.ReachesOf (services objectKey) (fun _ _ => True) (fun _ => True)
      (.init (Db.empty, fun _ => none)) s)
    (hown : ∀ a ∈ s.appenders, a.bucket.partitionKey = a.record.partitionKey) :
    (∀ a ∈ s.appenders, a.Acknowledged →
      (visible s.services.1 s.services.2 (refOf a.bucket)).count (Stored.of a.record) = 1) ∧
    ∀ k, (visible s.services.1 s.services.2 k).Nodup ∧
      ∀ x ∈ visible s.services.1 s.services.2 k, ∃ a ∈ s.appenders, a.TookEffect ∧
        refOf a.bucket = k ∧ Stored.of a.record = x := by
  have hinit : Tracks objectKey (Db.empty, fun _ => none) (World.init : World _ _ _) :=
    ⟨rfl, fun _ => rfl, fun h => h.elim, fun _ => List.nodup_nil⟩
  have hsound : Sound (refinement hkey) (.init (Db.empty, fun _ => none)) World.init :=
    Sound.init hinit .init fun _ => rfl
  obtain ⟨w, hw⟩ := hsound.reaches (fun _ _ h => ⟨h, trivial, h⟩)
    (System.reachesOf_of_appenders (P := coding.Opens) hr hown)
  have hvis : ∀ k, w.visible k = visible s.services.1 s.services.2 k :=
    Tracks.visible_eq hw.tracks
  have hnodup : ∀ k, (visible s.services.1 s.services.2 k).Nodup := fun k =>
    hvis k ▸ (hw.inv.visible_perm k).nodup_iff.mpr (hw.tracks.nodup k)
  have hmem : ∀ k x, x ∈ visible s.services.1 s.services.2 k ↔
      ∃ a ∈ s.appenders, a.TookEffect ∧ coding.ident a.bucket = k ∧ coding.enc a.record = x :=
    fun k x => by rw [← hvis k, (hw.visible_perm k).mem_iff, System.mem_stored]
  refine ⟨fun a ha hack => ?_, fun k => ⟨hnodup k, fun x hx => ?_⟩⟩
  · exact List.count_eq_one_of_mem (hnodup _)
      ((hmem _ _).mpr ⟨a, ha, (hw.appenders a ha).effect hack, rfl, rfl⟩)
  · exact (hmem k x).mp hx

namespace Sample

open Pulpitum.Sample (bucket record)

/-- A text that no other text continues. -/
def quote (cs : List Char) : List Char := cs.flatMap (fun c => ['-', c]) ++ ['/']

theorem quote_append_inj {cs ds xs ys : List Char} (h : quote cs ++ xs = quote ds ++ ys) :
    cs = ds ∧ xs = ys := by
  induction cs generalizing ds with
  | nil =>
      cases ds with
      | nil => simpa [quote] using h
      | cons d ds => simp [quote] at h
  | cons c cs ih =>
      cases ds with
      | nil => simp [quote] at h
      | cons d ds =>
          simp only [quote, List.flatMap_cons, List.cons_append, List.nil_append, List.cons.injEq,
            true_and] at h
          obtain ⟨rfl, h⟩ := h
          obtain ⟨rfl, rfl⟩ := ih h
          exact ⟨rfl, rfl⟩

/-- An object key that names the bucket and the generation. -/
def keyText (b : BucketId) (generation : Option ℕ) (_ : List Record) : String :=
  String.ofList (quote b.tableId.asStr.toList ++ (quote (Text.hexDigits b.partitionKey) ++
    (quote b.key.asStr.toList ++ List.replicate (generation.getD 0) 'I')))

theorem keyText_inj {b b' : BucketId} {g g' : ℕ} {rs rs' : List Record}
    (h : keyText b (some g) rs = keyText b' (some g') rs') : refOf b = refOf b' ∧ g = g' := by
  obtain ⟨ht, h⟩ := quote_append_inj (String.ofList_injective h)
  obtain ⟨hp, h⟩ := quote_append_inj h
  obtain ⟨hk, h⟩ := quote_append_inj h
  refine ⟨?_, by simpa using congrArg List.length h⟩
  rw [refOf, refOf, TableId.ext (String.toList_injective ht), Text.hexDigits_injective hp,
    BucketKey.ext (String.toList_injective hk)]

/-- An archive store that never fails. -/
def keep : (q : ArchiveRequest) → Objects → q.Reply × Objects
  | .putBucket b rs, o =>
      (.ok (keyText b none rs), Function.update o (keyText b none rs) (some rs))
  | .putBucketGeneration b g rs, o =>
      (.ok (keyText b (some g) rs), Function.update o (keyText b (some g) rs) (some rs))
  | .getBucket _ key, o => ((o key).elim (.error (.other "not found")) .ok, o)

/-- The two stores, at a time of the sample. -/
def answer : (q : Request) → Db × Objects → q.Reply × (Db × Objects)
  | .store q, (db, o) => ((exec (Sample.env "a") q db).1, ((exec (Sample.env "a") q db).2, o))
  | .archive q, (db, o) => ((keep q o).1, (db, (keep q o).2))

theorem keepsObjects_keep (q : ArchiveRequest) (o : Objects) :
    KeepsObjects keyText q o (keep q o).1 (keep q o).2 := by
  cases q with
  | putBucket => exact .putBucket
  | putBucketGeneration => exact .putBucketGeneration
  | getBucket b key =>
      change KeepsObjects keyText (.getBucket b key) o
        ((o key).elim (.error (.other "not found")) .ok) o
      cases hobject : o key with
      | none => exact .failed
      | some rs => exact .getBucket hobject

/-- An acknowledged append. -/
def acknowledged (b : BucketId) (r : Record) : Appender := ⟨b, r, .answered (.ok ()), some (.ok ())⟩

/-- A later record of the sample bucket. -/
def later : Record := { record with sortKey := [2] }

/-- The stores after an append. -/
def afterAppend (b : BucketId) (r : Record) (s : Db × Objects) : Db × Objects :=
  (answer (.store (.append b r)) s).2

/-- The stores after an append to the year bucket and its cutover. -/
def archived : Db × Objects :=
  ((Job.archiveBucket bucket).prog.runOn (Effect.undisturbed answer)
    (afterAppend bucket record (Db.empty, fun _ => none))).2

section Runs

variable {archive : (q : ArchiveRequest) → Objects → q.Reply → Objects → Prop}
  (ha : ∀ q o, archive q o (keep q o).1 (keep q o).2) {Opens : BucketId → Record → Prop}

include ha

theorem serve_answer (q : Request) (s : Db × Objects) :
    (Services.of Serves archive).serve q s (answer q s).1 (answer q s).2 := by
  obtain ⟨db, o⟩ := s
  cases q with
  | store q => exact ⟨.exec (Sample.env "a") q db, rfl⟩
  | archive q => exact ⟨ha q o, rfl⟩

/-- An append to the year bucket, and its cutover by a worker that no one disturbs. -/
theorem reaches_archived (h : Opens bucket record) :
    ∃ t : Task JobResult, (∃ o, t.phase = .finished (.archived (.ok o))) ∧
      System.ReachesOf (.of Serves archive) Opens (fun _ => True)
        (.init (Db.empty, fun _ => none)) ⟨archived, [acknowledged bucket record], [t], []⟩ := by
  have hjob := Prog.reaches_runOn
    (@Effect.undisturbed_serves (.of Serves archive) answer (serve_answer ha))
    (Job.archiveBucket bucket).prog (afterAppend bucket record (Db.empty, fun _ => none))
  obtain ⟨t, ht, hrun⟩ := @System.reaches_job _ Opens (fun _ => True) _ _
    [acknowledged bucket record] [] [] (.archiveBucket bucket) _ trivial hjob
  exact ⟨t, ⟨_, ht⟩, .trans (System.reaches_append h (serve_answer ha _ _)) hrun⟩

end Runs

/-- An append of another partition's record, after the cutover of the bucket of that partition. -/
def misfiled : Db × Objects := afterAppend otherPartition later archived

theorem visible_misfiled (k : BucketRef) : Stored.of later ∉ visible misfiled.1 misfiled.2 k := by
  by_cases e : k = refOf bucket
  · subst e
    have hvisible : visible misfiled.1 misfiled.2 (refOf bucket) = [Stored.of record] := rfl
    rw [hvisible]
    decide
  · -- the one hot row refers to the deleted bucket, and the other bucket is hot
    have hrows : misfiled.1.records.rows = [.new otherPartition later] := rfl
    have hhot : hotRows misfiled.1 k = [] := by
      have hrow : rowsOf misfiled.1 k = [] := by
        rw [rowsOf, hrows, List.filter_eq_nil_iff]
        intro row hrow
        obtain rfl := List.mem_singleton.mp hrow
        have href : (RecordRow.new otherPartition later).ref = refOf bucket := rfl
        simpa [href] using Ne.symm e
      rw [hotRows, hrow]
      rfl
    by_cases e' : k = refOf otherPartition
    · subst e'
      have hvisible : visible misfiled.1 misfiled.2 (refOf otherPartition) =
          hotRows misfiled.1 (refOf otherPartition) := rfl
      rw [hvisible, hhot]
      exact List.not_mem_nil
    · have hnone : misfiled.1.metadata.find? k = none := by
        have hrefs : misfiled.1.metadata.rows.map MetadataRow.ref =
            [refOf bucket, refOf otherPartition] := rfl
        refine Table.find?_eq_none_iff.mpr fun m hm hk => ?_
        have hmem := List.mem_map_of_mem (f := MetadataRow.ref) hm
        rw [hrefs, hk] at hmem
        simp [e, e'] at hmem
      rw [visible, hnone, hhot]
      exact List.not_mem_nil

end Sample

/-- An append, the cutover of its bucket, and an append to the bucket of another partition. -/
theorem no_loss_of_cutover :
    ∃ s : System (services Sample.keyText).State,
      System.ReachesOf (services Sample.keyText) (fun _ _ => True) (fun _ => True)
        (.init (Db.empty, fun _ => none)) s ∧
      (∃ t ∈ s.workers, ∃ o, t.phase = .finished (.archived (.ok o))) ∧
      s.appenders.map Appender.bucket = [Sample.otherPartition, Pulpitum.Sample.bucket] ∧
      ∀ a ∈ s.appenders, a.Acknowledged ∧
        (visible s.services.1 s.services.2 (refOf a.bucket)).count (Stored.of a.record) = 1 := by
  obtain ⟨t, ht, hrun⟩ := @Sample.reaches_archived _
    Sample.keepsObjects_keep (fun _ _ => True) trivial
  have hrun := hrun.trans (System.reaches_append (b := Sample.otherPartition)
    (r := { Pulpitum.Sample.record with partitionKey := [8] }) trivial
    (Sample.serve_answer Sample.keepsObjects_keep _ _))
  obtain ⟨hcount, -⟩ := no_loss Sample.keyText_inj hrun
    (List.forall_mem_cons.mpr ⟨rfl, List.forall_mem_singleton.mpr rfl⟩)
  refine ⟨_, hrun, ⟨t, List.mem_cons_self .., ht⟩, rfl, fun a ha => ?_⟩
  have hack : a.Acknowledged := by
    rcases List.mem_pair.mp ha with rfl | rfl <;> rfl
  exact ⟨hack, hcount a ha hack⟩

/-- **A record that is acknowledged and lost.**  A bucket is archived and deleted; an append to the
bucket of another partition, which is hot, then stores a record of the first partition under the
deleted bucket.  The append is acknowledged, and the record is visible in no bucket. -/
theorem misfiled_append_lost :
    ∃ s : System (services Sample.keyText).State,
      System.ReachesOf (services Sample.keyText) (fun _ _ => True) (fun _ => True)
        (.init (Db.empty, fun _ => none)) s ∧
      ∃ a ∈ s.appenders, a.Acknowledged ∧
        ∀ k, Stored.of a.record ∉ visible s.services.1 s.services.2 k := by
  obtain ⟨t, -, hrun⟩ := @Sample.reaches_archived _
    Sample.keepsObjects_keep (fun _ _ => True) trivial
  refine ⟨_, hrun.trans (System.reaches_append (b := Sample.otherPartition) (r := Sample.later)
    trivial (Sample.serve_answer Sample.keepsObjects_keep _ _)), _, List.mem_cons_self .., rfl,
    Sample.visible_misfiled⟩

end Cockroach
end Pulpitum
