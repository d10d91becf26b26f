import Mathlib
import Pulpitum.Adapters.InMemoryCycle
import Pulpitum.Adapters.CockroachInvariants

/-!
# Adapters — Discovery

Whether what `discover_archive_work` lists is what the claims grant.  Both stores say it twice, in
the discovery and in each claim; the in-memory store by its branches, the Cockroach store by its
`WHERE` clauses.

* `Agrees`: a list of work is exactly what the claims of a store would grant.
* `InMemory.discovery_grants`, `Cockroach.discovery_grants`: for each store.
* `discovery_agrees_with_claims`: **both agree**, and a limit only cuts the list.
-/

namespace Pulpitum

section Agrees

variable {ε σ : Type}

/-- `claim_archive` would grant the bucket. -/
def GrantsArchive (exec : Exec ε σ) (env : ε) (s : σ) (d : Duration) (b : BucketId) : Prop :=
  ∃ session s', exec env (.claimArchive b d) s = (.ok (some session), s')

/-- `claim_cleanup` would grant the bucket. -/
def GrantsCleanup (exec : Exec ε σ) (env : ε) (s : σ) (d : Duration) (b : BucketId) : Prop :=
  ∃ session s', exec env (.claimCleanup b d) s = (.ok (some session), s')

/-- The work is what the claims would grant to the known buckets, cleanups first.  A claim counts
the generation up, and is refused when the generation is not `below` its maximum. -/
structure Agrees (exec : Exec ε σ) (env : ε) (s : σ) (known below : BucketId → Prop)
    (before : DateTime) (d : Duration) (all : List ArchiveWork) : Prop where
  cutover : ∀ b, .cutover b ∈ all → below b → GrantsArchive exec env s d b
  cleanup : ∀ b, .cleanup b ∈ all → below b → GrantsCleanup exec env s d b
  all_cleanups : ∀ b, known b → GrantsCleanup exec env s d b → .cleanup b ∈ all
  all_cutovers : ∀ b, known b → b.endAt ≤ before → GrantsArchive exec env s d b → .cutover b ∈ all
  nodup : (all.map ArchiveWork.bucket).Nodup
  ordered : ∃ cleanups cutovers, all = List.map .cleanup cleanups ++ List.map .cutover cutovers

end Agrees

/-! ### In memory -/

namespace InMemory

variable {env : Env} {s : Store} {b : BucketId} {e : Entry} {d : Duration} {x now : Instant}
  {scan : ArchiveScan}

/-- The condition of `claim_archive`. -/
def Archivable (e : Entry) (now : Instant) : Prop :=
  attemptDue e now = true ∧ (e.state = .hot ∨ e.state = .archiving ∧ leaseExpired e now = true)

/-- The condition of `claim_cleanup`. -/
def Cleanable (e : Entry) (now : Instant) : Prop :=
  cleanupPending e.state = true ∧ attemptDue e now = true ∧ leaseExpired e now = true

/-- The generation of the bucket is not at the maximum of `u64`. -/
def Below (s : Store) (b : BucketId) : Prop := (orDefault s b).generation + 1 < 2 ^ 64

theorem nextGeneration_of_below (h : Below s b) :
    nextGeneration (orDefault s b).generation = some ((orDefault s b).generation + 1) := if_pos h

theorem nextGeneration_of_not_below (h : ¬ Below s b) :
    nextGeneration (orDefault s b).generation = none := if_neg h

theorem grantsArchive_iff (hx : leaseDeadline env.second d = .ok x) :
    GrantsArchive exec env s d b ↔ Archivable (orDefault s b) env.first ∧ Below s b := by
  change (∃ session s', claimArchive env b d s = (.ok (some session), s')) ↔ _
  unfold claimArchive
  rw [hx]
  dsimp only
  split
  case isTrue h =>
      by_cases hg : Below s b
      · rw [nextGeneration_of_below hg]
        exact iff_of_true ⟨_, _, rfl⟩ ⟨h, hg⟩
      · rw [nextGeneration_of_not_below hg]
        exact iff_of_false (fun ⟨_, _, he⟩ => by cases he) fun h => hg h.2
  case isFalse h => exact iff_of_false (fun ⟨_, _, he⟩ => by cases he) fun h' => h h'.1

theorem grantsCleanup_iff (hx : leaseDeadline env.second d = .ok x) :
    GrantsCleanup exec env s d b ↔ Cleanable (orDefault s b) env.first ∧ Below s b := by
  change (∃ session s', claimCleanup env b d s = (.ok (some session), s')) ↔ _
  unfold claimCleanup
  rw [hx]
  cases hl : s.lookup b with
  | none =>
      have hdefault : orDefault s b = .default := by rw [orDefault, hl]; rfl
      refine iff_of_false ?_ fun h => ?_
      · rintro ⟨_, _, he⟩
        cases he
      · rw [hdefault] at h
        cases h.1.1
  | some e =>
      obtain rfl := orDefault_of_lookup hl
      dsimp only
      split
      case isTrue h =>
          by_cases hg : Below s b
          · rw [nextGeneration_of_below hg]
            exact iff_of_true ⟨_, _, rfl⟩ ⟨h, hg⟩
          · rw [nextGeneration_of_not_below hg]
            refine iff_of_false ?_ fun h => hg h.2
            rintro ⟨_, _, he⟩
            cases he
      case isFalse h =>
          refine iff_of_false ?_ fun h' => h h'.1
          rintro ⟨_, _, he⟩
          cases he

/-- An entry is offered for cutover when it could be claimed and its bucket is old enough. -/
theorem workOf_eq_cutover_iff {b' : BucketId} :
    workOf scan now b e = some (.cutover b') ↔
      b = b' ∧ b.endAt ≤ scan.eligibleBefore ∧ Archivable e now := by
  unfold workOf Archivable
  cases attemptDue e now with
  | false => simp
  | true =>
      cases e.state with
      | hot =>
          simp
          tauto
      | archiving =>
          simp
          tauto
      | archived key deleted => cases deleted <;> simp

/-- An entry is offered for cleanup when it could be claimed. -/
theorem workOf_eq_cleanup_iff {b' : BucketId} :
    workOf scan now b e = some (.cleanup b') ↔ b = b' ∧ Cleanable e now := by
  unfold workOf Cleanable
  cases attemptDue e now with
  | false => simp
  | true =>
      cases e.state with
      | hot => simp [cleanupPending]
      | archiving => simp [cleanupPending]
      | archived key deleted =>
          cases deleted with
          | false =>
              simp [cleanupPending]
              tauto
          | true => simp [cleanupPending]

theorem mem_discovered_iff {w : ArchiveWork} :
    w ∈ discovered scan now s ↔ ∃ b e, s.lookup b = some e ∧ workOf scan now b e = some w := by
  rw [discovered_perm.mem_iff, offered, List.mem_filterMap]
  constructor
  · rintro ⟨⟨b, e⟩, hmem, hw⟩
    exact ⟨b, e, AList.mem_lookup_iff.mpr hmem, hw⟩
  · rintro ⟨b, e, hl, hw⟩
    exact ⟨⟨b, e⟩, AList.mem_lookup_iff.mp hl, hw⟩

/-- **The in-memory store lists what it grants.** -/
theorem discovery_grants (hx : leaseDeadline env.second d = .ok x) :
    Agrees exec env s (fun b => ∃ e, s.lookup b = some e) (Below s) scan.eligibleBefore d
      (discovered scan env.first s) where
  cutover := by
    intro b hb hg
    obtain ⟨b', e, hl, hw⟩ := mem_discovered_iff.mp hb
    obtain ⟨rfl, -, he⟩ := workOf_eq_cutover_iff.mp hw
    rw [grantsArchive_iff hx, orDefault_of_lookup hl]
    exact ⟨he, hg⟩
  cleanup := by
    intro b hb hg
    obtain ⟨b', e, hl, hw⟩ := mem_discovered_iff.mp hb
    obtain ⟨rfl, he⟩ := workOf_eq_cleanup_iff.mp hw
    rw [grantsCleanup_iff hx, orDefault_of_lookup hl]
    exact ⟨he, hg⟩
  all_cleanups := by
    rintro b ⟨e, hl⟩ hgrants
    rw [grantsCleanup_iff hx, orDefault_of_lookup hl] at hgrants
    exact mem_discovered_iff.mpr ⟨b, e, hl, workOf_eq_cleanup_iff.mpr ⟨rfl, hgrants.1⟩⟩
  all_cutovers := by
    rintro b ⟨e, hl⟩ hend hgrants
    rw [grantsArchive_iff hx, orDefault_of_lookup hl] at hgrants
    exact mem_discovered_iff.mpr ⟨b, e, hl, workOf_eq_cutover_iff.mpr ⟨rfl, hend, hgrants.1⟩⟩
  nodup := ((discovered_perm.map ArchiveWork.bucket).nodup_iff).mpr offered_nodup
  ordered := by
    -- each part holds work of one kind
    have hkind : ∀ (k : BucketId → ArchiveWork) (l : List ArchiveWork),
        (∀ w ∈ l, w = k w.bucket) → l = (l.map ArchiveWork.bucket).map k := by
      intro k l hl
      rw [List.map_map]
      exact (List.map_id' l).symm.trans (List.map_congr_left fun w hw => hl w hw)
    refine ⟨_, _, congrArg₂ (· ++ ·) (hkind .cleanup _ fun w hw => ?_)
      (hkind .cutover _ fun w hw => ?_)⟩
    · have hmem := (List.perm_insertionSort _ _).mem_iff.mp hw
      exact of_decide_eq_true (List.mem_filter.mp hmem).2
    · have hmem := (List.perm_insertionSort _ _).mem_iff.mp hw
      exact of_decide_eq_true (List.mem_filter.mp hmem).2

end InMemory

/-! ### Cockroach -/

namespace Cockroach

open Fallible

variable {env : Env} {db : Db} {b : BucketId} {m : MetadataRow} {d : Duration} {x : SqlTime}
  {scan : ArchiveScan}

/-- The `WHERE` clause of `claim_archive`, on the row of its bucket. -/
def archivable (m : MetadataRow) (now : SqlTime) : Bool :=
  attemptDue m now && (m.state = .hot || (m.state = .archiving && leaseOver m now))

/-- The `WHERE` clause of `claim_cleanup`, on the row of its bucket. -/
def deletable (m : MetadataRow) (now : SqlTime) : Bool :=
  m.state = .archived && !m.hotDeleted && attemptDue m now &&
    (m.archiveOwnerExpiresAt.isNone || leaseOver m now)

/-- The `WHERE` clause of the cutovers. -/
def cutoverDue (m : MetadataRow) (before : DateTime) (now : SqlTime) : Bool :=
  m.bucketEnd ≤ before.toSql && attemptDue m now &&
    (m.state = .hot || (m.state = .archiving && leaseOver m now))

theorem cutoverDue_iff {before : DateTime} {now : SqlTime} :
    cutoverDue m before now = true ↔ m.bucketEnd ≤ before.toSql ∧ archivable m now = true := by
  simp [cutoverDue, archivable, and_assoc]

/-- A claim whose `UPDATE` may change the row of its bucket grants it exactly when the row matches
and may be stored. -/
theorem update_grants_iff {p : MetadataRow → Bool} {set : MetadataRow → MetadataRow}
    {keeps : ∀ m, (set m).ref = m.ref} (hk : db.metadata.find? (refOf b) = some m) :
    (∃ session db', (do
      let (row, db) ← db.updateMetadata (refOf b) p set keeps
      return (row.map fun m => (⟨b, env.token, m.generation⟩ : ArchiveSession), db) :
        Except DurableBucketStoreError (Option ArchiveSession × Db)) = .ok (some session, db')) ↔
      p m = true ∧ (set m).Check := by
  constructor
  · rintro ⟨session, db', h⟩
    obtain ⟨⟨row, db''⟩, hupdate, h⟩ := ok_of_bind h
    rcases Db.updateMetadata_ok hupdate with ⟨rfl, -⟩ | ⟨m', hk', hp, -, hc, -⟩
    · cases h
    · cases hk.symm.trans hk'
      exact ⟨hp, hc⟩
  · rintro ⟨hp, hc⟩
    obtain ⟨db', hdb'⟩ := Db.updateMetadata_of_match keeps hk hp hc
    exact ⟨_, db', bind_of_ok hdb' rfl⟩

/-- An operation commits with what its transaction returns. -/
theorem exec_eq_ok_iff {q : StoreRequest} {v : q.Value} {db' : Db} :
    exec env q db = (.ok v, db') ↔ body env q db = .ok (v, db') := by
  unfold exec
  cases body env q db with
  | error e => simp
  | ok p => simp [Prod.ext_iff]

theorem grantsArchive_iff (hx : archiveLeaseExpiry env.utcNow d = .ok x)
    (hk : db.metadata.find? (refOf b) = some m) :
    GrantsArchive exec env db d b ↔ archivable m env.now = true ∧ m.generation + 1 < 2 ^ 63 := by
  have hc := Table.check_of_find? hk
  have hexec : GrantsArchive exec env db d b ↔
      ∃ session db', claimArchive env b d db = .ok (some session, db') :=
    exists_congr fun _ => exists_congr fun _ => exec_eq_ok_iff
  rw [hexec]
  unfold claimArchive
  rw [hx, ok_bind]
  refine (update_grants_iff hk).trans (and_congr_right fun _ =>
    ⟨fun hset => hset.2.2.1, fun hg => ?_⟩)
  exact ⟨hc.1, .inr (.inl ⟨rfl, by simp, by simp, rfl, rfl⟩), hg, hc.2.2.2⟩

theorem grantsCleanup_iff (hx : archiveLeaseExpiry env.utcNow d = .ok x)
    (hk : db.metadata.find? (refOf b) = some m) :
    GrantsCleanup exec env db d b ↔ deletable m env.now = true ∧ m.generation + 1 < 2 ^ 63 := by
  have hc := Table.check_of_find? hk
  have hexec : GrantsCleanup exec env db d b ↔
      ∃ session db', claimCleanup env b d db = .ok (some session, db') :=
    exists_congr fun _ => exists_congr fun _ => exec_eq_ok_iff
  rw [hexec]
  unfold claimCleanup
  rw [hx, ok_bind]
  refine (update_grants_iff hk).trans (and_congr_right fun hp =>
    ⟨fun hset => hset.2.2.1, fun hg => ?_⟩)
  simp only [Bool.and_eq_true, decide_eq_true_eq] at hp
  have howner := owner_of_archived hc hp.1.1.1
  exact ⟨hc.1, .inr (.inr ⟨hp.1.1.1, by simp, howner.2⟩), hg, hc.2.2.2⟩

/-! ### The rows that are listed -/

/-- The bounds of the row are times of `chrono`. -/
def BoundsDecode (m : MetadataRow) : Prop :=
  (∃ t, DateTime.fromSql m.bucketStart = some t) ∧ ∃ t, DateTime.fromSql m.bucketEnd = some t

theorem exists_bucketFromRow (h : BoundsDecode m) : ∃ b, bucketFromRow m = .ok b := by
  obtain ⟨⟨t, ht⟩, u, hu⟩ := h
  unfold bucketFromRow
  rw [ht, hu]
  exact ⟨_, rfl⟩

/-- The bucket of a row has its key, and ends at its end. -/
theorem bucketFromRow_eq_ok (h : bucketFromRow m = .ok b) :
    refOf b = m.ref ∧ DateTime.fromSql m.bucketEnd = some b.endAt := by
  unfold bucketFromRow at h
  split at h
  · rename_i hs he
    cases h
    exact ⟨rfl, he⟩
  · cases h

/-- A stored time at or before another is sent at or before it. -/
theorem le_toSql {k : ℤ} {t u : DateTime} (hu : DateTime.fromSql k = some u) (h : u ≤ t) :
    k ≤ t.toSql := by
  obtain ⟨hn, hl⟩ := DateTime.fromSql_eq_some hu
  have hnanos : u.nanos ≤ t.nanos := by
    rw [DateTime.le_iff_unix] at h
    unfold DateTime.IsLeapSecond at hl
    unfold DateTime.nanos
    omega
  rcases t.toSql_cases with ⟨hlt, hs⟩ | ⟨hlt, hs⟩
  · rw [hs]
    omega
  · rw [hs]
    omega

/-- Rows `ORDER BY bucket_end, table_id, partition_key, bucket_key`. -/
def orderRows (rows : List MetadataRow) : List MetadataRow :=
  rows.insertionSort fun a b => discoveryKey a ≤ discoveryKey b

/-- What discovery lists without its limit, if `name` is what the rows decode to. -/
def listed (name : MetadataRow → BucketId) (env : Env) (before : DateTime) (db : Db) :
    List ArchiveWork :=
  (orderRows (db.metadata.rows.filter fun m => deletable m env.now)).map (.cleanup ∘ name) ++
    (orderRows (db.metadata.rows.filter fun m => cutoverDue m before env.now)).map (.cutover ∘ name)

/-- Rows that decode, taken to a limit. -/
theorem mapM_take {name : MetadataRow → BucketId} {rows : List MetadataRow}
    (h : ∀ m ∈ rows, bucketFromRow m = .ok (name m)) (n : ℕ) :
    (rows.take n).mapM bucketFromRow = .ok ((rows.map name).take n) := by
  rw [mapM_congr fun m hm => h m (List.mem_of_mem_take hm), ← List.map_take]
  exact mapM_eq_ok_of_forall₂
    (List.forall₂_map_right_iff.mpr (List.forall₂_same.mpr fun _ _ => rfl))

theorem mem_orderRows {rows : List MetadataRow} : m ∈ orderRows rows ↔ m ∈ rows :=
  (List.perm_insertionSort _ _).mem_iff

/-- **Discovery lists the rows of its two statements**, cleanups first, up to the limit. -/
theorem discover_eq {name : MetadataRow → BucketId}
    (h : ∀ m ∈ db.metadata.rows, bucketFromRow m = .ok (name m)) :
    exec env (.discoverArchiveWork scan) db =
      (.ok ((listed name env scan.eligibleBefore db).take scan.limit), db) := by
  have hselect : ∀ (p : MetadataRow → Bool) (n : ℕ),
      ((orderRows (db.metadata.rows.filter p)).take n).mapM bucketFromRow =
        .ok (((orderRows (db.metadata.rows.filter p)).map name).take n) := fun p n =>
    mapM_take (fun m hm => h m (List.mem_of_mem_filter (mem_orderRows.mp hm))) n
  refine exec_eq_ok_iff.mpr (bind_of_ok (hselect (fun m => deletable m env.now) scan.limit) ?_)
  unfold listed
  rw [← List.map_map, ← List.map_map]
  generalize (orderRows (db.metadata.rows.filter fun m => deletable m env.now)).map name = cleanups
  have hcutovers := hselect (fun m => cutoverDue m scan.eligibleBefore env.now)
    (scan.limit - (cleanups.take scan.limit).length)
  dsimp only
  split
  case isTrue hzero =>
      -- the cleanups fill the limit
      rw [List.length_take] at hzero
      rw [List.take_append_of_le_length (by rw [List.length_map]; omega), ← List.map_take]
      rfl
  case isFalse hmore =>
      refine bind_of_ok hcutovers ?_
      rw [List.length_take] at hmore
      have hall : cleanups.take scan.limit = cleanups := List.take_of_length_le (by omega)
      simp only [hall, List.take_append, List.length_map, ← List.map_take]
      rfl

/-- The bucket is stored in a row. -/
def InRows (db : Db) (b : BucketId) : Prop := ∃ m ∈ db.metadata.rows, bucketFromRow m = .ok b

/-- The generation of the bucket is not at the maximum of its column. -/
def Below (db : Db) (b : BucketId) : Prop :=
  ∀ m, db.metadata.find? (refOf b) = some m → m.generation + 1 < 2 ^ 63

/-- The row of a bucket is found under its key. -/
theorem find?_of_inRows (hm : m ∈ db.metadata.rows) (hb : bucketFromRow m = .ok b) :
    db.metadata.find? (refOf b) = some m :=
  Table.find?_eq_some_iff.mpr ⟨hm, (bucketFromRow_eq_ok hb).1.symm⟩

/-- A row is listed by one statement at most: it is archived, or not. -/
theorem not_cutoverDue_of_deletable {before : DateTime} {now : SqlTime}
    (h : deletable m now = true) : cutoverDue m before now = false := by
  simp only [deletable, Bool.and_eq_true, decide_eq_true_eq] at h
  simp [cutoverDue, h.1.1.1]

section Listed

variable {name : MetadataRow → BucketId} {before : DateTime}

theorem mem_listed_iff {w : ArchiveWork} :
    w ∈ listed name env before db ↔
      ∃ m ∈ db.metadata.rows, (deletable m env.now = true ∧ w = .cleanup (name m)) ∨
        (cutoverDue m before env.now = true ∧ w = .cutover (name m)) := by
  simp only [listed, List.mem_append, List.mem_map, mem_orderRows, List.mem_filter, Function.comp]
  constructor
  · rintro (⟨m, ⟨hm, h⟩, rfl⟩ | ⟨m, ⟨hm, h⟩, rfl⟩)
    · exact ⟨m, hm, .inl ⟨h, rfl⟩⟩
    · exact ⟨m, hm, .inr ⟨h, rfl⟩⟩
  · rintro ⟨m, hm, ⟨h, rfl⟩ | ⟨h, rfl⟩⟩
    · exact .inl ⟨m, ⟨hm, h⟩, rfl⟩
    · exact .inr ⟨m, ⟨hm, h⟩, rfl⟩

/-- The buckets that are listed are those of some of the rows, each once. -/
theorem listed_nodup (h : ∀ m ∈ db.metadata.rows, bucketFromRow m = .ok (name m)) :
    ((listed name env before db).map ArchiveWork.bucket).Nodup := by
  have hrows : db.metadata.rows.Nodup := List.Nodup.of_map _ db.metadata.keys_nodup
  have hsorted : ∀ p : MetadataRow → Bool, (orderRows (db.metadata.rows.filter p)).Nodup := fun p =>
    (List.perm_insertionSort _ _).nodup_iff.mpr (hrows.filter p)
  have hmem : ∀ {p : MetadataRow → Bool} {m : MetadataRow},
      m ∈ orderRows (db.metadata.rows.filter p) ↔ m ∈ db.metadata.rows ∧ p m = true :=
    mem_orderRows.trans List.mem_filter
  have hbuckets : (listed name env before db).map ArchiveWork.bucket =
      (orderRows (db.metadata.rows.filter fun m => deletable m env.now) ++
        orderRows (db.metadata.rows.filter fun m => cutoverDue m before env.now)).map name := by
    simp only [listed, List.map_append, List.map_map]
    rfl
  rw [hbuckets]
  refine List.Nodup.map_on (fun m hm m' hm' he => ?_)
    (List.Nodup.append (hsorted _) (hsorted _) fun m hm hm' => ?_)
  · have hm := (List.mem_append.mp hm).elim (fun h => (hmem.mp h).1) fun h => (hmem.mp h).1
    have hm' := (List.mem_append.mp hm').elim (fun h => (hmem.mp h).1) fun h => (hmem.mp h).1
    have hfound := find?_of_inRows hm (h m hm)
    rw [he] at hfound
    exact Option.some.inj (hfound.symm.trans (find?_of_inRows hm' (h m' hm')))
  · have hno : cutoverDue m before env.now = false := not_cutoverDue_of_deletable (hmem.mp hm).2
    cases hno.symm.trans (hmem.mp hm').2

/-- **The Cockroach store lists what it grants.** -/
theorem discovery_grants (hx : archiveLeaseExpiry env.utcNow d = .ok x)
    (h : ∀ m ∈ db.metadata.rows, bucketFromRow m = .ok (name m)) :
    Agrees exec env db (InRows db) (Below db) before d (listed name env before db) where
  cutover := by
    intro b hb hg
    obtain ⟨m, hm, ⟨-, hw⟩ | ⟨hdue, hw⟩⟩ := mem_listed_iff.mp hb
    · cases hw
    · cases hw
      have hk := find?_of_inRows hm (h m hm)
      exact (grantsArchive_iff hx hk).mpr ⟨(cutoverDue_iff.mp hdue).2, hg m hk⟩
  cleanup := by
    intro b hb hg
    obtain ⟨m, hm, ⟨hdue, hw⟩ | ⟨-, hw⟩⟩ := mem_listed_iff.mp hb
    · cases hw
      have hk := find?_of_inRows hm (h m hm)
      exact (grantsCleanup_iff hx hk).mpr ⟨hdue, hg m hk⟩
    · cases hw
  all_cleanups := by
    rintro b ⟨m, hm, hb⟩ hgrants
    have hdue := (grantsCleanup_iff hx (find?_of_inRows hm hb)).mp hgrants
    cases (h m hm).symm.trans hb
    exact mem_listed_iff.mpr ⟨m, hm, .inl ⟨hdue.1, rfl⟩⟩
  all_cutovers := by
    rintro b ⟨m, hm, hb⟩ hend hgrants
    have hdue := (grantsArchive_iff hx (find?_of_inRows hm hb)).mp hgrants
    have hold := le_toSql (bucketFromRow_eq_ok hb).2 hend
    cases (h m hm).symm.trans hb
    exact mem_listed_iff.mpr ⟨m, hm, .inr ⟨cutoverDue_iff.mpr ⟨hold, hdue.1⟩, rfl⟩⟩
  nodup := listed_nodup h
  ordered := by
    unfold listed
    rw [← List.map_map, ← List.map_map]
    exact ⟨_, _, rfl⟩

end Listed

/-! ### The rows of a run -/

/-- The bounds of a bucket that the operation may store decode. -/
def Dated : StoreRequest → Prop
  | .append b _ | .beginArchive b => BoundsDecode (.new b)
  | _ => True

/-- Bounds that are no leap seconds decode. -/
theorem boundsDecode_new (h : ¬ b.start.IsLeapSecond ∧ ¬ b.endAt.IsLeapSecond) :
    BoundsDecode (.new b) :=
  ⟨DateTime.exists_fromSql_toSql h.1, DateTime.exists_fromSql_toSql h.2⟩

/-- Every statement keeps bounds that decode: an `UPDATE` leaves them. -/
theorem writes_dated {q : StoreRequest} {ws : List Write} (hq : Dated q)
    (h : writes env q = .ok ws) :
    ∀ w ∈ ws, w.Makes fun old row => (∀ m ∈ old, BoundsDecode m) → BoundsDecode row := by
  cases q with
  | append b r =>
      cases h
      exact List.forall_mem_singleton.mpr fun _ => hq
  | beginArchive b =>
      cases h
      refine List.forall_mem_cons.mpr ⟨fun _ => hq, ?_⟩
      exact List.forall_mem_singleton.mpr fun m _ _ hm => hm m rfl
  | claimArchive b d | claimCleanup b d =>
      obtain ⟨t, -, h⟩ := ok_of_bind h
      cases h
      exact List.forall_mem_singleton.mpr fun m _ _ hm => hm m rfl
  | renewArchiveLease session d | deferCleanup session d | deferArchive session d =>
      obtain ⟨g, -, h⟩ := ok_of_bind h
      obtain ⟨t, -, h⟩ := ok_of_bind h
      cases h
      exact List.forall_mem_singleton.mpr fun m _ _ hm => hm m rfl
  | publishArchive session key | deleteHotBucket session | abortArchive session =>
      obtain ⟨g, -, h⟩ := ok_of_bind h
      cases h
      exact List.forall_mem_singleton.mpr fun m _ _ hm => hm m rfl
  | state b | discoverArchiveWork scan | readRange b range after limit | snapshot session =>
      cases h
      exact List.forall_mem_nil _

/-- Along a run, the bounds of every row decode. -/
theorem run_boundsDecode {calls : List (Call Env)} (hrun : Run (Call.Step exec) Db.empty calls db)
    (hcalls : ∀ c ∈ calls, Dated c.request) : ∀ m ∈ db.metadata.rows, BoundsDecode m := by
  refine Run.rec_last (P := fun calls db => (∀ c ∈ calls, Dated c.request) →
    ∀ m ∈ db.metadata.rows, BoundsDecode m) ?_ ?_ hrun hcalls
  · intro _ m hm
    cases hm
  · intro calls db c db' _ ih hs hcalls
    obtain ⟨hcalls, hc⟩ := List.forall_mem_append.mp hcalls
    have hdated := List.forall_mem_singleton.mp hc
    exact keep_rows_step hs (fun _ hws => writes_dated hdated hws) (ih hcalls)

end Cockroach

/-! ### Both stores -/

/-- Discovery at any limit is the first items of one list. -/
def Lists {ε σ : Type} (exec : Exec ε σ) (env : ε) (s : σ) (before : DateTime)
    (all : List ArchiveWork) : Prop :=
  ∀ limit, exec env (.discoverArchiveWork ⟨before, limit⟩) s = (.ok (all.take limit), s)

theorem Lists.take_eq {ε σ : Type} {exec : Exec ε σ} {env : ε} {s : σ} {before : DateTime}
    {all works : List ArchiveWork} {limit : ℕ} (h : Lists exec env s before all)
    (hworks : exec env (.discoverArchiveWork ⟨before, limit⟩) s = (.ok works, s)) :
    all.take limit = works :=
  Except.ok.inj (congrArg Prod.fst ((h limit).symm.trans hworks))

/-- **Discovery and claiming agree.**  In both stores, at every instant, what discovery lists is
the beginning of one list, and that list is what the claims would grant, for every lease that is
not zero and has an end. -/
theorem discovery_agrees_with_claims {calls : List (Call Cockroach.Env)} {db : Cockroach.Db}
    (hrun : Run (Call.Step Cockroach.exec) Cockroach.Db.empty calls db)
    (hcalls : ∀ c ∈ calls, Cockroach.Dated c.request) :
    (∀ env (s : InMemory.Store) before, ∃ all, Lists InMemory.exec env s before all ∧
      ∀ d x, InMemory.leaseDeadline env.second d = .ok x →
        Agrees InMemory.exec env s (fun b => ∃ e, s.lookup b = some e) (InMemory.Below s) before d
          all) ∧
    ∀ env before, ∃ all, Lists Cockroach.exec env db before all ∧
      ∀ d x, Cockroach.archiveLeaseExpiry env.utcNow d = .ok x →
        Agrees Cockroach.exec env db (Cockroach.InRows db) (Cockroach.Below db) before d all := by
  constructor
  · intro env s before
    refine ⟨InMemory.discovered ⟨before, 0⟩ env.first s, fun limit => rfl, fun d x hx => ?_⟩
    exact @InMemory.discovery_grants env s d x ⟨before, 0⟩ hx
  · intro env before
    have hrows := Cockroach.run_boundsDecode hrun hcalls
    have : Nonempty BucketId := ⟨Sample.bucket⟩
    choose! name hname using fun m hm => Cockroach.exists_bucketFromRow (hrows m hm)
    refine ⟨Cockroach.listed name env before db, fun limit => Cockroach.discover_eq hname, ?_⟩
    exact fun d x hx => Cockroach.discovery_grants hx hname

namespace Sample

/-- Records are appended to two buckets, and the first is archived. -/
def cutover : List StoreRequest :=
  [.append bucket record,
    .append Cockroach.Sample.otherPartition { record with partitionKey := [8] },
    .beginArchive bucket, .publishArchive ⟨bucket, "a", 1⟩ "object"]

end Sample

/-- One bucket is archived and one is not: when the lease is over, both stores list and grant the
cleanup of the first and the cutover of the second. -/
theorem discovery_agrees_with_claims_of_cutover :
    let env : InMemory.Env := ⟨300000000000, 300000000000, "b"⟩
    let s := Sample.cutover.foldl (fun s q => (InMemory.exec ⟨0, 0, "a"⟩ q s).2) ∅
    let env' := { Cockroach.Sample.env "b" with now := (Cockroach.Sample.env "a").now + 300000000 }
    let db := Cockroach.Sample.after Sample.cutover .empty
    let works : List ArchiveWork :=
      [.cleanup Sample.bucket, .cutover Cockroach.Sample.otherPartition]
    (∃ all, all.take 2 = works ∧ Lists InMemory.exec env s Sample.bucket.endAt all ∧
      Agrees InMemory.exec env s (fun b => ∃ e, s.lookup b = some e)
        (InMemory.Below s) Sample.bucket.endAt 1 all) ∧
    ∃ all, all.take 2 = works ∧ Lists Cockroach.exec env' db Sample.bucket.endAt all ∧
      Agrees Cockroach.exec env' db (Cockroach.InRows db)
        (Cockroach.Below db) Sample.bucket.endAt 1 all := by
  intro env s env' db works
  have hbounds : ¬ Sample.bucket.start.IsLeapSecond ∧ ¬ Sample.bucket.endAt.IsLeapSecond := by
    unfold DateTime.IsLeapSecond
    decide
  have hdated : ∀ c ∈ Cockroach.Sample.callsOf Sample.cutover .empty,
      Cockroach.Dated c.request := by
    have hrow := Cockroach.boundsDecode_new hbounds
    exact List.forall_mem_cons.mpr ⟨hrow, List.forall_mem_cons.mpr ⟨hrow,
      List.forall_mem_cons.mpr ⟨hrow, List.forall_mem_singleton.mpr trivial⟩⟩⟩
  obtain ⟨hmemory, hcockroach⟩ :=
    discovery_agrees_with_claims (Cockroach.Sample.run_callsOf Sample.cutover _) hdated
  obtain ⟨all, hlists, hagrees⟩ := hmemory env s Sample.bucket.endAt
  obtain ⟨all', hlists', hagrees'⟩ := hcockroach env' Sample.bucket.endAt
  have hlease : Cockroach.archiveLeaseExpiry (Cockroach.Sample.env "b").utcNow 1 = .ok _ := rfl
  exact ⟨⟨all, hlists.take_eq rfl, hlists, hagrees 1 _ rfl⟩,
    all', hlists'.take_eq rfl, hlists', hagrees' 1 _ hlease⟩

end Pulpitum
