import Mathlib
import Pulpitum.Ports.Locality
import Pulpitum.Ports.InMemoryArchive
import Pulpitum.Application.NoLoss

/-!
# Adapters — In-memory cutover

`InMemoryDurableBucketStore` with `InMemoryArchiveStore` refines the abstract cutover, as long as
archival is asked for canonical buckets only: object keys tell those apart.  A bucket is its
entry; records and buckets are what they are.

* `refinement`: every operation of the two stores is a step of the cutover.
* `Tracks.sorted`: the records of an entry stay in key order.
-/

namespace Pulpitum
namespace InMemory

open Cutover (World)
open InMemoryArchive (generationKey)

/-! ### The stores -/

/-- The two stores. -/
def services : Services :=
  .of (fun q s r s' => ∃ env, exec env q s = (r, s'))
    (fun q o r o' => InMemoryArchive.exec q o = (r, o'))

/-- The phase an entry stands for. -/
def Entry.phase (e : Entry) : Cutover.Phase String :=
  match e.state with
  | .hot => .hot
  | .archiving => .archiving
  | .archived key hotDeleted => .archived key hotDeleted

/-- The bucket an entry stands for. -/
def Entry.cell (e : Entry) : Cutover.Cell Record String := ⟨e.phase, e.generation, e.records⟩

/-- The entries and the objects are a state of the cutover. -/
structure Tracks (s : Store × Objects) (w : World BucketId Record String) : Prop where
  cell : ∀ b, w.cell b = (orDefault s.1 b).cell
  object : w.object = s.2
  key : ∀ {b g rs key}, w.facts.stored b g rs key → b.Canonical ∧ generationKey b g = key
  canonical : ∀ {b}, b ∈ s.1 → b.Canonical
  sorted : ∀ b, (orDefault s.1 b).records.Pairwise fun r r' => r.clusteringKey ≤ r'.clusteringKey

/-! ### The buckets that have an entry -/

/-- The bucket an operation gives an entry if it has none. -/
def opens? : StoreRequest → Option BucketId
  | .append b _ | .claimArchive b _ | .beginArchive b => some b
  | _ => none

/-- The buckets an operation found. -/
def found : (q : StoreRequest) → q.Reply → List BucketId
  | .discoverArchiveWork _, .ok work => List.map ArchiveWork.bucket work
  | _, _ => []

variable {s s' : Store} {o o' : Objects} {b b' : BucketId} {env : Env}

theorem mem_of_lookup {e : Entry} (h : s.lookup b = some e) : b ∈ s :=
  AList.lookup_isSome.mp (by rw [h]; rfl)

/-- Without an entry, an operation that does not open the bucket changes nothing. -/
theorem exec_of_lookup_eq_none {q : StoreRequest} (hq : q.bucket? = some b)
    (ho : opens? q ≠ some b) (hl : s.lookup b = none) : (exec env q s).2 = s := by
  cases q with
  | append | claimArchive | beginArchive => exact absurd hq ho
  | state | discoverArchiveWork => rfl
  | claimCleanup b' d =>
      cases hq
      change (claimCleanup env b d s).2 = s
      unfold claimCleanup
      rw [hl]
      split <;> rfl
  | readRange b' range after limit => exact readRange_store b' range after limit s
  | renewArchiveLease | deferArchive | deferCleanup =>
      cases hq
      exact deadline_store rfl hl
  | snapshot | publishArchive | deleteHotBucket | abortArchive =>
      cases hq
      exact congrArg Prod.snd (withSession_eq_stale hl)

/-- Only the bucket an operation opens can be new. -/
theorem mem_of_exec {q : StoreRequest} (h : b ∈ (exec env q s).2) : b ∈ s ∨ opens? q = some b := by
  by_cases hq : q.bucket? = some b
  · by_contra hnot
    obtain ⟨hb, ho⟩ := not_or.mp hnot
    rw [exec_of_lookup_eq_none hq ho (AList.lookup_eq_none.mpr hb)] at h
    exact hb h
  · refine .inl (AList.lookup_isSome.mp ?_)
    rw [← exec_lookup_others env hq]
    exact AList.lookup_isSome.mpr h

theorem bucket_of_workOf {scan : ArchiveScan} {now : Instant} {e : Entry} {work : ArchiveWork}
    (h : workOf scan now b e = some work) : work.bucket = b := by
  unfold workOf at h
  grind [ArchiveWork.bucket]

/-- What is found has an entry. -/
theorem mem_of_found {q : StoreRequest} (h : b ∈ found q (exec env q s).1) : b ∈ s := by
  cases q with
  | discoverArchiveWork scan =>
      obtain ⟨work, hwork, rfl⟩ := List.mem_map.mp h
      have hfound : work ∈ s.entries.filterMap fun e => workOf scan env.first e.1 e.2 := by
        rcases List.mem_append.mp (List.mem_of_mem_take hwork) with hw | hw
        · exact List.mem_of_mem_filter ((List.perm_insertionSort _ _).mem_iff.mp hw)
        · exact List.mem_of_mem_filter ((List.perm_insertionSort _ _).mem_iff.mp hw)
      obtain ⟨⟨b', entry⟩, hentry, hw⟩ := List.mem_filterMap.mp hfound
      rw [bucket_of_workOf hw]
      exact AList.mem_keys.mpr (List.mem_map.mpr ⟨_, hentry, rfl⟩)
  | _ => simp [found] at h

/-! ### Entries as buckets of the cutover -/

variable {w : World BucketId Record String} {G : BucketId → Prop}

/-- Buckets and records are what they are, and archival is asked for buckets in `G`. -/
abbrev within (G : BucketId → Prop) : Coding BucketId Record := ⟨id, id, G, DurableTable.Routes⟩

theorem admits_within (hG : ∀ {b : BucketId}, b.Canonical → G b) (b : BucketId) (r : Record)
    (h : DurableTable.Routes b r) : (within G).Admits b r :=
  ⟨h, hG h.canonical, h.partitionKey⟩

/-- The entries are the buckets of the cutover. -/
def Entries (s : Store) (w : World BucketId Record String) : Prop :=
  ∀ b, w.cell b = (orDefault s b).cell

namespace Entries

/-- One entry changes. -/
theorem set (h : Entries s w) {e : Entry} {c : Cutover.Cell Record String} (hc : c = e.cell) :
    Entries (s.insert b e) (w.set b c) := by
  intro b'
  subst hc
  by_cases eq : b' = b
  · subst eq; simp [World.set]
  · simp [World.set, eq, h b']

/-- One entry changes in what the cutover does not see. -/
theorem keep (h : Entries s w) {e : Entry} (hc : e.cell = (orDefault s b).cell) :
    Entries (s.insert b e) w := by
  have hset := h.set (b := b) hc.symm
  rwa [← h b, World.set, Function.update_eq_self] at hset

/-- The phase of a bucket, by the state of its entry. -/
theorem phase (h : Entries s w) (b : BucketId) : (w.cell b).phase = (orDefault s b).phase :=
  congrArg Cutover.Cell.phase (h b)

theorem state_of_phase (h : Entries s w) {key : String} {d : Bool}
    (hp : (w.cell b).phase = .archived key d) : (orDefault s b).state = .archived key d := by
  rw [h.phase, Entry.phase] at hp
  split at hp
  · cases hp
  · cases hp
  · rename_i hst
    cases hp
    exact hst

end Entries

/-- An operation that changes nothing teaches nothing but what it found. -/
theorem learned_of_look {q : StoreRequest} {r : q.Reply} {F : Cutover.Facts BucketId Record String}
    (hq : q.session? = none) (hi : q.issued? r = none) (hf : ∀ b ∈ found q r, G b) :
    (within G).Learned (.store q) r F := by
  refine Coding.Learned.of_look hi (fun _ _ => hq) ?_
  rintro scan rfl
  rcases r with e | work
  · trivial
  · exact fun w hw => hf _ (List.mem_map.mpr ⟨w, hw, rfl⟩)

/-- **Every operation of a worker is a step of the cutover**, which uploads nothing. -/
theorem Entries.effect (h : Entries s w) {q : StoreRequest} {r : q.Reply}
    (hl : (within G).Legit w.facts (.store q)) (he : Effect env s q r s')
    (hf : ∀ b ∈ found q r, G b) :
    ∃ w', Cutover.Step w none w' ∧ Entries s' w' ∧ w'.object = w.object ∧
      w'.facts.stored = w.facts.stored ∧ (within G).Learned (.store q) r w'.facts := by
  cases he with
  | look hq _ hi hsame =>
      refine ⟨w, .skip, fun b => ?_, rfl, rfl, learned_of_look hq hi hf⟩
      rw [hsame b]
      exact h b
  | refused hq he =>
      exact ⟨w, .skip, h, rfl, rfl, Coding.Learned.of_failed (q := .store q) ⟨_, rfl⟩⟩
  | append => exact hl.elim
  | @claimArchive b d hp =>
      refine ⟨_, .claim (b := b) ?_, h.set (by rw [h b]; rfl), rfl, rfl, rfl⟩
      rw [h.phase]
      rcases hp with hp | ⟨hp, -⟩ <;> simp [Entry.phase, hp]
  | @claimCleanup b d key hp =>
      have hphase : (w.cell b).phase = .archived key false := by
        rw [h.phase]
        simp [Entry.phase, hp]
      exact ⟨_, .claimCleanup hphase, h.set (by rw [h b]; rfl), rfl, rfl, rfl⟩
  | @beginArchive b hp =>
      refine ⟨_, .claim (b := b) ?_, h.set (by rw [h b]; rfl), rfl, rfl, rfl⟩
      rw [h.phase]
      simp [Entry.phase, hp]
  | @fence b hp =>
      refine ⟨_, .claim (b := b) ?_, h.set (by rw [h b]; rfl), rfl, rfl, trivial⟩
      rw [h.phase]
      simp [Entry.phase, hp]
  | renew held => exact ⟨w, .skip, h.keep rfl, rfl, rfl, trivial⟩
  | @deferArchive session d hp held =>
      refine ⟨_, .reopen (b := session.bucket) ?_, h.set (by rw [h session.bucket]; rfl), rfl, rfl,
        trivial⟩
      rw [h.phase]
      simp [Entry.phase, hp]
  | deferCleanup hp held => exact ⟨w, .skip, h.keep rfl, rfl, rfl, trivial⟩
  | @snapshot session hp held =>
      refine ⟨_, .snapshot (b := session.bucket) ?_, h.keep rfl, rfl, rfl, ?_⟩
      · rw [h.phase]
        simp [Entry.phase, hp]
      · rw [h session.bucket]
        exact .inr ⟨rfl, held.generation.symm, List.map_id _⟩
  | @publish session key hp held =>
      obtain ⟨rs, hs⟩ := hl
      have hstored : w.facts.stored session.bucket (w.cell session.bucket).gen rs key := by
        rw [h session.bucket]
        change w.facts.stored _ (orDefault s session.bucket).generation rs key
        rw [held.generation]
        exact hs
      refine ⟨_, .publish ?_ hstored, h.set (by rw [h session.bucket]; rfl), rfl, rfl, trivial⟩
      rw [h.phase]
      simp [Entry.phase, hp]
  | @deleteHot session key hp held =>
      have hphase : (w.cell session.bucket).phase = .archived key false := by
        rw [h.phase]
        simp [Entry.phase, hp]
      exact ⟨_, .clean hphase, h.set (by rw [h session.bucket]; rfl), rfl, rfl, trivial⟩
  | @abort session hp held =>
      refine ⟨_, .reopen (b := session.bucket) ?_, h.set (by rw [h session.bucket]; rfl), rfl, rfl,
        trivial⟩
      rw [h.phase]
      simp [Entry.phase, hp]

/-- An append is an append to the cutover, or nothing. -/
theorem Entries.append (h : Entries s w) {record : Record}
    {a : Except DurableBucketStoreError Unit} (he : Effect env s (.append b record) a s') :
    ∃ w', Cutover.Step w (Coding.plain.appended b record a) w' ∧ Entries s' w' ∧
      w'.object = w.object ∧ w'.facts.stored = w.facts.stored := by
  cases he with
  | look _ ha _ hsame =>
      match a with
      | .ok () => cases ha
      | .error _ =>
          refine ⟨w, .skip, fun b => ?_, rfl, rfl⟩
          rw [hsame b]
          exact h b
  | refused hq => cases hq
  | append hp =>
      have hphase : (w.cell b).phase = .hot := by
        rw [h.phase]
        simp [Entry.phase, hp]
      have hrows : (sortByKey ((orDefault s b).records ++ [record])).Perm
          (record :: (w.cell b).rows) := by
        rw [h b]
        exact (sortByKey_perm _).trans List.perm_append_comm
      have hset := h.set (b := b)
        (e := { orDefault s b with records := sortByKey ((orDefault s b).records ++ [record]) })
        (c := { w.cell b with rows := _ }) (by rw [h b]; rfl)
      exact ⟨_, .append hphase hrows, hset, rfl, rfl⟩

/-! ### The refinement -/

/-- An operation keeps the records of every entry in key order. -/
theorem Effect.sorted {q : StoreRequest} {r : q.Reply} (he : Effect env s q r s')
    (h : ∀ b, (orDefault s b).records.Pairwise fun r r' => r.clusteringKey ≤ r'.clusteringKey)
    (b : BucketId) :
    (orDefault s' b).records.Pairwise fun r r' => r.clusteringKey ≤ r'.clusteringKey := by
  -- the entry that changes has records in key order
  have set : ∀ {b' : BucketId} {e : Entry},
      (e.records.Pairwise fun r r' => r.clusteringKey ≤ r'.clusteringKey) →
      (orDefault (s.insert b' e) b).records.Pairwise
        fun r r' => r.clusteringKey ≤ r'.clusteringKey := by
    intro b' e hrs
    rw [orDefault_insert]
    split
    · exact hrs
    · exact h b
  cases he with
  | look _ _ _ hsame => rw [hsame b]; exact h b
  | refused => exact h b
  | append => exact set (sortByKey_pairwise _)
  | @claimArchive b' => exact set (h b')
  | @claimCleanup b' => exact set (h b')
  | @beginArchive b' => exact set (h b')
  | @fence b' => exact set (h b')
  | @renew session => exact set (h session.bucket)
  | @deferArchive session => exact set (h session.bucket)
  | @deferCleanup session => exact set (h session.bucket)
  | @snapshot session => exact set (h session.bucket)
  | @publish session => exact set (h session.bucket)
  | deleteHot => exact set .nil
  | @abort session => exact set (h session.bucket)

/-- An operation of a worker is a step of the cutover. -/
theorem Tracks.effect (h : Tracks (s, o) w) {q : StoreRequest} {r : q.Reply}
    (hl : Coding.plain.Legit w.facts (.store q)) (he : Effect env s q r s')
    (hcan : ∀ {b}, b ∈ s' → b.Canonical) (hf : ∀ b ∈ found q r, b.Canonical) :
    ∃ w', Cutover.Step w none w' ∧ Tracks (s', o) w' ∧
      Coding.plain.Learned (.store q) r w'.facts := by
  obtain ⟨w', hw, hcell, hobj, hst, hlearn⟩ := Entries.effect h.cell hl he hf
  exact ⟨w', hw, ⟨hcell, hobj.trans h.object, hst ▸ h.key, hcan, he.sorted h.sorted⟩, hlearn⟩

/-- An append is an append to the cutover, or nothing. -/
theorem Tracks.append (h : Tracks (s, o) w) {record : Record}
    {a : Except DurableBucketStoreError Unit} (he : Effect env s (.append b record) a s')
    (hcan : ∀ {b}, b ∈ s' → b.Canonical) :
    ∃ w', Cutover.Step w (Coding.plain.appended b record a) w' ∧ Tracks (s', o) w' := by
  obtain ⟨w', hw, hcell, hobj, hst⟩ := Entries.append h.cell he
  exact ⟨w', hw, hcell, hobj.trans h.object, hst ▸ h.key, hcan, he.sorted h.sorted⟩

/-- An upload puts a snapshot under a key of its own. -/
theorem Tracks.archive (h : Tracks (s, o) w) {q : ArchiveRequest}
    (hl : Coding.plain.Legit w.facts (.archive q)) :
    ∃ w', Cutover.Step w none w' ∧ Tracks (s, (InMemoryArchive.exec q o).2) w' ∧
      Coding.plain.Learned (.archive q) (InMemoryArchive.exec q o).1 w'.facts := by
  cases q with
  | putBucket => exact hl.elim
  | putBucketGeneration b g rs =>
      obtain ⟨hb, hsnap⟩ := hl
      have hown : ∀ {b' g' rs'}, w.facts.stored b' g' rs' (generationKey b g) →
          b' = b ∧ g' = g := by
        intro b' g' rs' hst
        obtain ⟨hb', hk⟩ := h.key hst
        exact InMemoryArchive.generationKey_inj hb' hb hk
      refine ⟨_, .put hsnap hown, ⟨h.cell, ?_, ?_, h.canonical, h.sorted⟩,
        .inr ⟨rfl, rfl, rfl, rfl⟩⟩
      · change Function.update w.object _ (some (rs.map id)) = _
        rw [h.object, List.map_id]
        rfl
      · rintro b' g' rs' key (hst | ⟨rfl, rfl, -, rfl⟩)
        · exact h.key hst
        · exact ⟨hb, rfl⟩
  | getBucket => exact ⟨w, .skip, h, trivial⟩

/-- **The two stores refine the cutover.** -/
def refinement : Refinement services Coding.plain where
  Tracks := Tracks
  serve := by
    rintro ⟨s, o⟩ ⟨s', o'⟩ w q r h _ hl hs
    cases q with
    | store q =>
        obtain ⟨⟨env, hs⟩, ho⟩ : (∃ env, exec env q s = (r, s')) ∧ o' = o := hs
        obtain ⟨rfl, rfl⟩ := Prod.mk.inj hs
        subst ho
        refine h.effect hl (exec_effect env q s) (fun hb => ?_) fun b hb =>
          h.canonical (mem_of_found hb)
        rcases mem_of_exec hb with hb | hb
        · exact h.canonical hb
        · cases q with
          | append => exact hl.elim
          | claimArchive | beginArchive => cases hb; exact hl
          | _ => cases hb
    | archive q =>
        obtain ⟨hs, hst⟩ : InMemoryArchive.exec q o = (r, o') ∧ s' = s := hs
        obtain ⟨rfl, rfl⟩ := Prod.mk.inj hs
        subst hst
        exact h.archive hl
  append := by
    rintro ⟨s, o⟩ ⟨s', o'⟩ w b record a h _ hb _ hs
    obtain ⟨⟨env, hs⟩, ho⟩ : (∃ env, exec env (.append b record) s = (a, s')) ∧ o' = o := hs
    subst ho
    have he := exec_effect env (.append b record) s
    rw [hs] at he
    refine h.append he fun {b'} hb' => ?_
    have hmem : b' ∈ (exec env (.append b record) s).2 := by rw [hs]; exact hb'
    rcases mem_of_exec hmem with hb' | hb'
    · exact h.canonical hb'
    · cases hb'; exact hb

theorem Tracks.init : Tracks (∅, fun _ => none) World.init where
  cell _ := rfl
  object := rfl
  key h := h.elim
  canonical hb := absurd hb (AList.notMem_empty _)
  sorted _ := List.Pairwise.nil

/-- Every state that a run from the empty stores reaches is one of the cutover. -/
theorem sound_of_reaches {s : System services.State}
    (hr : System.Reaches services BucketId.Canonical (.init (∅, fun _ => none)) s) :
    ∃ w, Sound refinement s w := by
  have hsound : Sound refinement (.init (∅, fun _ => none)) World.init :=
    Sound.init Tracks.init .init fun _ => rfl
  exact hsound.reaches Coding.admits_plain hr

end InMemory
end Pulpitum
