import Mathlib
import Pulpitum.Adapters.InMemoryCutover
import Pulpitum.Application.Attended

/-!
# Adapters — Direct cutover in memory

What the result of `DurableArchiveCoordinator::archive_bucket` says about
`InMemoryDurableBucketStore` and `InMemoryArchiveStore`, with appenders and other workers on the
same stores.  Objects are told apart by the paths of their buckets, so uploads are for buckets with
paths of their own: those of one bucket, or canonical ones.

* `uploadRefinement`: such stores refine the cutover.
* `archiveClaimedBucket_ends`: what the worker has asked and been told when it ends.
* `cutover_result`: **a result of direct cutover describes the stores**, then and from then on.
-/

namespace Pulpitum

open History (requests effects)

/-! ### What the worker asks -/

/-- What a worker with a claimed bucket has asked when it ends, and been told. -/
structure CutoverEnds (b : BucketId) (session : ArchiveSession) (h : History)
    (r : Except DurableArchiveError ArchiveOutcome) : Prop where
  ok : ∀ o, r = .ok o → ∃ (records : List Record) (key : String), o = ⟨b, key, records.length⟩ ∧
    effects h = [.serve (.store (.snapshot session)) (.ok records),
      .serve (.archive (.putBucketGeneration b session.generation records)) (.ok key),
      .serve (.store (.publishArchive session key)) (.ok ()),
      .serve (.store (.deleteHotBucket session)) (.ok ())]
  abort : ∀ s, .store (.abortArchive s) ∈ requests h →
    s = session ∧ ∀ s' key, .store (.publishArchive s' key) ∉ requests h

theorem CutoverEnds.failed {b : BucketId} {session : ArchiveSession} {h : History}
    {e : DurableArchiveError} (ha : ∀ s, .store (.abortArchive s) ∉ requests h) :
    CutoverEnds b session h (.error e) :=
  ⟨fun _ hr => (by cases hr), fun s hs => absurd hs (ha s)⟩

/-- **A claimed bucket is cut over in four operations**, and abandoned before it is published or
not at all. -/
theorem archiveClaimedBucket_ends (b : BucketId) (session : ArchiveSession) :
    (archiveClaimedBucket b session).Ends (CutoverEnds b session) := by
  intro r
  rcases r with e | e | records
  · exact .failed fun s => by simp [requests, History.request?]
  · intro r
    rcases r with e' | e' | ⟨⟩ <;>
      exact ⟨fun _ hr => (by cases hr), fun s hs => by
        simpa [requests, History.request?] using hs⟩
  intro r
  rcases r with e | e | key
  · exact .failed fun s => by simp [requests, History.request?]
  · intro r
    rcases r with e' | e' | ⟨⟩ <;>
      exact ⟨fun _ hr => (by cases hr), fun s hs => by
        simpa [requests, History.request?] using hs⟩
  intro r
  rcases r with e | e | ⟨⟩
  · exact .failed fun s => by simp [requests, History.request?]
  · exact .failed fun s => by simp [requests, History.request?]
  intro r
  rcases r with e | e | ⟨⟩
  · exact .failed fun s => by simp [requests, History.request?]
  · exact .failed fun s => by simp [requests, History.request?]
  · refine ⟨fun o hr => ?_, fun s hs => ?_⟩
    · cases hr
      exact ⟨records, key, rfl, rfl⟩
    · simp [requests, History.request?] at hs

/-- What `archive_bucket` has asked when it ends, and been told. -/
structure DirectEnds (b : BucketId) (h : History)
    (r : Except DurableArchiveError ArchiveOutcome) : Prop where
  ok : ∀ o, r = .ok o → ∃ (session : ArchiveSession) (records : List Record) (key : String),
    o = ⟨b, key, records.length⟩ ∧
    effects h = [.serve (.store (.beginArchive b)) (.ok session),
      .serve (.store (.snapshot session)) (.ok records),
      .serve (.archive (.putBucketGeneration b session.generation records)) (.ok key),
      .serve (.store (.publishArchive session key)) (.ok ()),
      .serve (.store (.deleteHotBucket session)) (.ok ())]
  abort : ∀ session, .store (.abortArchive session) ∈ requests h →
    h.head? = some ⟨.call (.store (.beginArchive b)), .ok session⟩ ∧
      ∀ session' key, .store (.publishArchive session' key) ∉ requests h

theorem archiveBucket_ends (b : BucketId) : (archiveBucket b).Ends (DirectEnds b) := by
  intro r
  rcases r with e | session
  · exact ⟨fun _ hr => (by cases hr), fun s hs => by simp [requests, History.request?] at hs⟩
  intro r
  refine Prog.Ends.bind (p := archiveClaimedBucket b session)
    ((archiveClaimedBucket_ends b session).imp fun h r hr => ?_)
  intro r'
  -- neither the start nor the shutdown of the renewer is an operation
  have heffects : effects (h ++ [⟨.shutdown, r'⟩]) = effects h :=
    (History.effects_snoc ..).trans (List.append_nil _)
  have hrequests : requests (h ++ [⟨.shutdown, r'⟩]) = requests h :=
    (History.requests_snoc ..).trans (List.append_nil _)
  refine ⟨fun o ho => ?_, fun s hs => ?_⟩
  · obtain ⟨records, key, rfl, heff⟩ := hr.ok o ho
    refine ⟨session, records, key, rfl, ?_⟩
    rw [← heff, ← heffects]
    rfl
  · change _ ∈ Request.store (.beginArchive b) :: requests (h ++ [⟨.shutdown, r'⟩]) at hs
    rw [hrequests] at hs
    obtain ⟨rfl, hpub⟩ := hr.abort s (by simpa using hs)
    refine ⟨rfl, fun s' key hs' => ?_⟩
    change _ ∈ Request.store (.beginArchive b) :: requests (h ++ [⟨.shutdown, r'⟩]) at hs'
    rw [hrequests] at hs'
    exact hpub s' key (by simpa using hs')

/-- The worker's program ends as `archive_bucket` does. -/
theorem job_ends (b : BucketId) : (Job.archiveBucket b).prog.Ends fun h r =>
    ∃ r', r = .archived r' ∧ DirectEnds b h r' :=
  Prog.Ends.bind ((archiveBucket_ends b).imp fun h r hr => ⟨r, rfl, by rwa [List.append_nil]⟩)

namespace InMemory

open Cutover (World Leads)
open InMemoryArchive (generationKey bucketPath)

/-! ### Uploads to paths of their own -/

variable {G : BucketId → Prop}

/-- The operation is no upload, or one for a bucket in `G`. -/
def UploadsIn (G : BucketId → Prop) : Request → Prop
  | .archive (.putBucketGeneration b _ _) => G b
  | _ => True

/-- The two stores, in runs that upload for buckets in `G` only. -/
def uploading (G : BucketId → Prop) : Services := services.only (UploadsIn G)

/-- The buckets have object paths of their own. -/
def OwnPaths (G : BucketId → Prop) : Prop :=
  ∀ b b', G b → G b' → bucketPath b = bucketPath b' → b = b'

/-- One bucket has a path of its own. -/
theorem ownPaths_eq (b : BucketId) : OwnPaths (· = b) := fun _ _ h h' _ => h.trans h'.symm

theorem ownPaths_canonical : OwnPaths BucketId.Canonical :=
  fun _ _ h h' => InMemoryArchive.bucketPath_inj h h'

/-- The entries and the objects are a state of the cutover, with objects for buckets in `G`. -/
structure TracksUploads (G : BucketId → Prop) (p : Store × Objects)
    (w : World BucketId Record String) : Prop where
  cell : Entries p.1 w
  object : w.object = p.2
  key : ∀ {b g rs key}, w.facts.stored b g rs key → G b ∧ generationKey b g = key

/-- **The two stores refine the cutover**, whichever buckets archival is asked for. -/
def uploadRefinement (hG : OwnPaths G) : Refinement (uploading G) (within fun _ => True) where
  Tracks := TracksUploads G
  serve := by
    rintro ⟨s, o⟩ ⟨s', o'⟩ w q r h _ hl ⟨hq, hs⟩
    cases q with
    | store q =>
        obtain ⟨⟨env, hs⟩, ho⟩ : (∃ env, exec env q s = (r, s')) ∧ o' = o := hs
        obtain ⟨rfl, rfl⟩ := Prod.mk.inj hs
        subst ho
        obtain ⟨w', hw, hcell, hobj, hst, hlearn⟩ :=
          h.cell.effect hl (exec_effect env q s) fun _ _ => trivial
        exact ⟨w', hw, ⟨hcell, hobj.trans h.object, hst ▸ h.key⟩, hlearn⟩
    | archive q =>
        obtain ⟨hs, hst⟩ : InMemoryArchive.exec q o = (r, o') ∧ s' = s := hs
        obtain ⟨rfl, rfl⟩ := Prod.mk.inj hs
        subst hst
        cases q with
        | putBucket => exact hl.elim
        | putBucketGeneration b g rs =>
            have hown : ∀ {b' g' rs'}, w.facts.stored b' g' rs' (generationKey b g) →
                b' = b ∧ g' = g := by
              intro b' g' rs' hstored
              obtain ⟨hb', hk⟩ := h.key hstored
              obtain ⟨hp, rfl⟩ := InMemoryArchive.bucketPath_of_generationKey hk
              exact ⟨hG b' b hb' hq hp, rfl⟩
            refine ⟨_, .put hl.2 hown, ⟨h.cell, ?_, ?_⟩, .inr ⟨rfl, rfl, rfl, rfl⟩⟩
            · change Function.update w.object _ (some (rs.map id)) = _
              rw [h.object, List.map_id]
            · rintro b' g' rs' key (hstored | ⟨rfl, rfl, -, rfl⟩)
              · exact h.key hstored
              · exact ⟨hq, rfl⟩
        | getBucket => exact ⟨w, .skip, h, trivial⟩
  append := by
    rintro ⟨s, o⟩ ⟨s', o'⟩ w b record a h _ _ _ ⟨-, hs⟩
    obtain ⟨⟨env, hs⟩, ho⟩ : (∃ env, exec env (.append b record) s = (a, s')) ∧ o' = o := hs
    subst ho
    have he := exec_effect env (.append b record) s
    rw [hs] at he
    obtain ⟨w', hw, hcell, hobj, hst⟩ := h.cell.append he
    exact ⟨w', hw, hcell, hobj.trans h.object, hst ▸ h.key⟩

/-- Every state that a run from the empty stores reaches is one of the cutover. -/
theorem sound_of_uploading (hG : OwnPaths G) {s : System (uploading G).State}
    (hr : System.Reaches (uploading G) (fun _ => True) (.init (∅, fun _ => none)) s) :
    ∃ w, Sound (uploadRefinement hG) s w := by
  have htracks : TracksUploads G (∅, fun _ => none) World.init :=
    ⟨fun _ => rfl, rfl, fun h => h.elim⟩
  have hsound : Sound (uploadRefinement hG) (.init (∅, fun _ => none)) World.init :=
    Sound.init htracks .init fun _ => rfl
  exact hsound.reaches (admits_within fun _ => trivial) hr

/-! ### What the worker's operations find and leave -/

/-- What readers are given of a bucket: its records, or its archive object. -/
def contents (p : Store × Objects) (b : BucketId) : Except StoreError (List Record) :=
  match (orDefault p.1 b).state with
  | .hot | .archiving => .ok (orDefault p.1 b).records
  | .archived key _ => InMemoryArchive.getBucket b key p.2

theorem state_eq (s : Store) (b : BucketId) : (state b s).1 = .ok (orDefault s b).state := by
  unfold state orDefault
  cases s.lookup b <;> rfl

/-- The stores of a state. -/
abbrev stores {α : Type} (x : Attended (uploading G) α) : Store × Objects := x.1.services

section

variable {α : Type} {x y : Attended (uploading G) α} {b : BucketId} {session : ArchiveSession}
  {w : World BucketId Record String}

/-- An operation of the worker takes effect as the store executes it. -/
theorem effect_of_own {q : StoreRequest} {r : q.Reply}
    (h : Attended.Step (uploading G) (fun _ => True) x (some (.serve (.store q) r)) y) :
    ∃ env, Effect env (stores x).1 q r (stores y).1 := by
  cases h with
  | @own s s' as ws os os' t t' l h ht =>
      cases ht with
      | serve hs =>
          obtain ⟨-, ⟨env, hs⟩, -⟩ := hs
          refine ⟨env, ?_⟩
          have he := exec_effect env q s.1
          rw [hs] at he
          exact he

/-- The worker's fence is closed over the records that readers are given. -/
theorem fenced_of_begin (hw : Entries (stores y).1 w)
    (h : Attended.Step (uploading G) (fun _ => True) x
      (some (.serve (.store (.beginArchive b)) (.ok session))) y) :
    session.bucket = b ∧ (orDefault (stores x).1 b).state = .hot ∧
      w.Fenced b session.generation (orDefault (stores x).1 b).records := by
  obtain ⟨env, he⟩ := effect_of_own h
  generalize (stores y).1 = s' at he hw
  cases he with
  | look _ _ hi => cases hi
  | beginArchive hp =>
      refine ⟨rfl, hp, ?_⟩
      unfold World.Fenced
      rw [hw b, orDefault_insert, if_pos rfl]
      exact ⟨le_rfl, fun _ _ => rfl⟩

/-- The worker is given the records its fence was closed over. -/
theorem snapshot_eq {records rs : List Record} (hw : Entries (stores x).1 w)
    (hf : w.Fenced session.bucket session.generation rs)
    (h : Attended.Step (uploading G) (fun _ => True) x
      (some (.serve (.store (.snapshot session)) (.ok records))) y) : records = rs := by
  obtain ⟨env, he⟩ := effect_of_own h
  generalize (stores y).1 = s' at he
  cases he with
  | look hq => cases hq
  | snapshot hp held =>
      have hrows := hf.2 (by rw [hw]; exact held.generation)
        (by rw [hw.phase]; simp [Entry.phase, hp])
      rw [hw] at hrows
      exact hrows

theorem archived_of_publish {key : String} (hw : Entries (stores y).1 w)
    (h : Attended.Step (uploading G) (fun _ => True) x
      (some (.serve (.store (.publishArchive session key)) (.ok ()))) y) :
    (w.cell session.bucket).phase = .archived key false := by
  obtain ⟨env, he⟩ := effect_of_own h
  generalize (stores y).1 = s' at he hw
  cases he with
  | look hq => cases hq
  | publish hp held =>
      rw [hw.phase, orDefault_insert, if_pos rfl]
      rfl

theorem cleaned_of_delete {w' : World BucketId Record String} {key : String} {d : Bool}
    (hw : Entries (stores x).1 w) (hw' : Entries (stores y).1 w')
    (hp : (w.cell session.bucket).phase = .archived key d)
    (h : Attended.Step (uploading G) (fun _ => True) x
      (some (.serve (.store (.deleteHotBucket session)) (.ok ()))) y) :
    (w'.cell session.bucket).phase = .archived key true := by
  obtain ⟨env, he⟩ := effect_of_own h
  generalize (stores y).1 = s' at he hw'
  cases he with
  | look hq => cases hq
  | @deleteHot _ key' hst held =>
      rw [hw.phase] at hp
      simp only [Entry.phase, hst, Cutover.Phase.archived.injEq] at hp
      rw [hw'.phase, orDefault_insert, if_pos rfl, ← hp.1]
      rfl

/-- An abandoned bucket has the records its fence was closed over. -/
theorem reopened_of_abort {rs : List Record} (hw : Entries (stores x).1 w)
    (hf : w.Fenced session.bucket session.generation rs)
    (h : Attended.Step (uploading G) (fun _ => True) x
      (some (.serve (.store (.abortArchive session)) (.ok ()))) y) :
    (orDefault (stores y).1 session.bucket).state = .hot ∧
      (orDefault (stores y).1 session.bucket).records = rs := by
  obtain ⟨env, he⟩ := effect_of_own h
  generalize (stores y).1 = s' at he
  cases he with
  | look hq => cases hq
  | abort hp held =>
      have hrows := hf.2 (by rw [hw]; exact held.generation)
        (by rw [hw.phase]; simp [Entry.phase, hp])
      rw [hw] at hrows
      rw [orDefault_insert, if_pos rfl]
      exact ⟨rfl, hrows⟩

end

/-- The records of a hot bucket lie in it. -/
theorem belongs_of_sound {hG : OwnPaths G} {s : System (uploading G).State}
    {w : World BucketId Record String} (h : Sound (uploadRefinement hG) s w) {b : BucketId}
    (hp : (orDefault s.services.1 b).state = .hot) :
    ∀ r ∈ (orDefault s.services.1 b).records,
      r.partitionKey = b.partitionKey ∧ b.contains r.eventTime := by
  intro r hr
  have hcell : w.cell b = (orDefault s.services.1 b).cell := h.tracks.cell b
  have hvis : w.visible b = (orDefault s.services.1 b).records := by
    simp [World.visible, hcell, Entry.cell, Entry.phase, hp]
  rw [← hvis, (h.visible_perm b).mem_iff, System.mem_stored] at hr
  obtain ⟨a, ha, -, rfl, rfl⟩ := hr
  have hadmits := (h.appenders a ha).admits
  exact ⟨hadmits.partitionKey.symm, DurableTable.Routes.contains hadmits.opens⟩

/-! ### The result -/

section

variable {b : BucketId} {ls : List (Attended (uploading G) JobResult × Option Task.Label)}
  {s₀ s : System (uploading G).State} {t : Task JobResult}

/-- In the run, the worker closed its fence when readers were given `rs` of the bucket. -/
def FencedOver (b : BucketId) (ls : List (Attended (uploading G) JobResult × Option Task.Label))
    (rs : List Record) : Prop :=
  ∃ m session, (m, some (.serve (.store (.beginArchive b)) (.ok session))) ∈ ls ∧
    contents (stores m) b = .ok rs

/-- The states of a run of the worker and the others are sound. -/
theorem attends_of_uploading (hG : OwnPaths G)
    (h₀ : System.Reaches (uploading G) (fun _ => True) (.init (∅, fun _ => none)) s₀)
    (b : BucketId) :
    ∃ w, Attends (uploadRefinement hG) (s₀, Task.init (Job.archiveBucket b).prog) w := by
  obtain ⟨w, hw⟩ := sound_of_uploading hG h₀
  exact ⟨w, hw, Job.keeps _ _ trivial⟩

/-- What the worker's fence was closed over. -/
theorem fencedOver_of_begin (hG : OwnPaths G) {m m' : Attended (uploading G) JobResult}
    {session : ArchiveSession} {w w' : World BucketId Record String}
    (hm : (m, some (.serve (.store (.beginArchive b)) (.ok session))) ∈ ls)
    (hs : Attended.Step (uploading G) (fun _ => True) m
      (some (.serve (.store (.beginArchive b)) (.ok session))) m')
    (hw : Attends (uploadRefinement hG) m w) (hw' : Attends (uploadRefinement hG) m' w') :
    session.bucket = b ∧ ∃ rs, FencedOver b ls rs ∧ w'.Fenced b session.generation rs ∧
      ∀ r ∈ rs, r.partitionKey = b.partitionKey ∧ b.contains r.eventTime := by
  obtain ⟨hb, hp, hf⟩ := fenced_of_begin hw'.1.tracks.cell hs
  refine ⟨hb, _, ⟨m, session, hm, ?_⟩, hf, belongs_of_sound hw.1 hp⟩
  unfold contents
  rw [hp]

/-- The worker returned an outcome. -/
theorem cutover_ok (hG : OwnPaths G)
    (h₀ : System.Reaches (uploading G) (fun _ => True) (.init (∅, fun _ => none)) s₀)
    (hrun : Run (Attended.Move (uploading G) fun _ => True)
      (s₀, Task.init (Job.archiveBucket b).prog) ls (s, t))
    {o : ArchiveOutcome} (ho : t.phase = .finished (.archived (.ok o))) :
    ∃ rs, FencedOver b ls rs ∧ (state b s.services.1).1 = .ok (.archived o.objectKey true) ∧
      InMemoryArchive.getBucket b o.objectKey s.services.2 = .ok rs ∧
      o.recordsArchived = rs.length := by
  have hrec := Task.Recorded.of_run (Attended.own hrun)
  rw [ho] at hrec
  obtain ⟨h, ⟨r', hr', hends⟩, heff⟩ := hrec.ends (job_ends b)
  cases hr'
  obtain ⟨session, records, key, rfl, hlabels⟩ := hends.ok o rfl
  rw [hlabels] at heff
  have hadmits := admits_within (G := fun _ => True) fun _ => trivial
  obtain ⟨w₀, hw₀⟩ := attends_of_uploading hG h₀ b
  -- the fence
  obtain ⟨l₁, m, l₂, m', w₁, w₂, hls, heff₂, hs, hrun₂, -, hw₁, -, hw₂, -⟩ :=
    hw₀.mark hadmits hrun heff
  obtain ⟨hb, rs, hover, hf, hin⟩ := fencedOver_of_begin hG
    (hls ▸ List.mem_append_right l₁ (List.mem_cons_self ..)) hs hw₁ hw₂
  subst hb
  -- the snapshot
  obtain ⟨_, _, l₃, _, w₃, w₄, -, heff₃, hs, hrun₃, hlead, hw₃, -, hw₄, -⟩ :=
    hw₂.mark hadmits hrun₂ heff₂
  have hrs : records = rs := snapshot_eq hw₃.1.tracks.cell (hlead.fenced hf) hs
  -- the upload
  obtain ⟨_, _, l₄, _, w₅, w₆, -, heff₄, -, hrun₄, -, -, -, hw₆, hstored⟩ :=
    hw₄.mark hadmits hrun₃ heff₃
  -- the publication
  obtain ⟨_, _, l₅, _, w₇, w₈, -, heff₅, hs, hrun₅, hlead₇, -, hlead₈, hw₈, -⟩ :=
    hw₆.mark hadmits hrun₄ heff₄
  have hpub := archived_of_publish hw₈.1.tracks.cell hs
  -- the deletion
  obtain ⟨_, _, l₆, _, w₉, w₁₀, -, -, hs, hrun₆, hlead₉, hw₉, hlead₁₀, hw₁₀, -⟩ :=
    hw₈.mark hadmits hrun₅ heff₅
  obtain ⟨d, hpub, -⟩ := hlead₉.archived hpub
  have hdel := cleaned_of_delete hw₉.1.tracks.cell hw₁₀.1.tracks.cell hpub hs
  -- from then on
  obtain ⟨w, hlead₁₁, hw⟩ := hw₁₀.reaches hadmits hrun₆
  obtain ⟨d, hdel, hd⟩ := hlead₁₁.archived hdel
  obtain rfl := hd rfl
  have hstored : w.facts.stored session.bucket session.generation records key := by
    have hle := Leads.facts_le
      (hlead₇.trans (hlead₈.trans (hlead₉.trans (hlead₁₀.trans hlead₁₁))))
    have hstored := hle.stored hstored
    rwa [List.map_id] at hstored
  have hobject : s.services.2 key = some records := by
    rw [← hw.1.inv.stored_object hstored]
    exact (congrFun hw.1.tracks.object key).symm
  subst hrs
  refine ⟨records, hover, ?_, InMemoryArchive.getBucket_eq_ok hobject hin, rfl⟩
  rw [state_eq, Entries.state_of_phase hw.1.tracks.cell hdel]

/-- The worker abandoned the bucket. -/
theorem cutover_aborted (hG : OwnPaths G)
    (h₀ : System.Reaches (uploading G) (fun _ => True) (.init (∅, fun _ => none)) s₀)
    (hrun : Run (Attended.Move (uploading G) fun _ => True)
      (s₀, Task.init (Job.archiveBucket b).prog) ls (s, t))
    {session : ArchiveSession} {y : Attended (uploading G) JobResult}
    (hs : Attended.Step (uploading G) (fun _ => True) (s, t)
      (some (.serve (.store (.abortArchive session)) (.ok ()))) y) :
    ∃ rs, FencedOver b ls rs ∧ (state b (stores y).1).1 = .ok .hot ∧
      contents (stores y) b = .ok rs := by
  have hrec := Task.Recorded.of_run (Attended.own hrun)
  -- the worker has asked for it, so it was told of its session first
  have hasked : .store (.abortArchive session) ∈ Task.started (Attended.deeds ls) := by
    cases hs with
    | own hstep =>
        cases hstep with
        | serve =>
            cases hrec with
            | awaiting _ _ hst =>
                rw [hst]; exact List.mem_append_right _ (List.mem_singleton_self _)
  obtain ⟨h, l, a, ⟨r', -, hends⟩, heff, hst⟩ := hrec.begins (job_ends b)
  rw [hst] at hasked
  obtain ⟨hhead, -⟩ := hends.abort session (by
    rw [requests, List.filterMap_append]
    exact List.mem_append_left _ hasked)
  cases h with
  | nil => cases hasked
  | cons x h =>
      cases hhead
      have hadmits := admits_within (G := fun _ => True) fun _ => trivial
      obtain ⟨w₀, hw₀⟩ := attends_of_uploading hG h₀ b
      have heff : (.serve (.store (.beginArchive b)) (.ok session) :: effects h).Sublist
          (Attended.deeds ls) := heff
      obtain ⟨l₁, m, l₂, m', w₁, w₂, hls, -, hbegin, hrun₂, -, hw₁, -, hw₂, -⟩ :=
        hw₀.mark hadmits hrun heff
      obtain ⟨hb, rs, hover, hf, -⟩ := fencedOver_of_begin hG
        (hls ▸ List.mem_append_right l₁ (List.mem_cons_self ..)) hbegin hw₁ hw₂
      subst hb
      obtain ⟨w, hlead, hw⟩ := hw₂.reaches hadmits hrun₂
      obtain ⟨hstate, hrecords⟩ := reopened_of_abort hw.1.tracks.cell (hlead.fenced hf) hs
      refine ⟨rs, hover, ?_, ?_⟩
      · rw [state_eq, hstate]
      · unfold contents
        rw [hstate, ← hrecords]

/-- What was published is not abandoned, nor the other way round. -/
theorem published_or_aborted
    (hrun : Run (Attended.Move (uploading G) fun _ => True)
      (s₀, Task.init (Job.archiveBucket b).prog) ls (s, t))
    {session session' : ArchiveSession} {key : String}
    (hp : .start (.store (.publishArchive session key)) ∈ Attended.deeds ls) :
    .start (.store (.abortArchive session')) ∉ Attended.deeds ls := by
  intro ha
  obtain ⟨h, l, a, ⟨r', -, hends⟩, -, hst⟩ :=
    (Task.Recorded.of_run (Attended.own hrun)).begins (job_ends b)
  have hasked : ∀ {q : Request}, .start q ∈ Attended.deeds ls → q ∈ requests (h ++ l) := by
    intro q hq
    have hq : q ∈ Task.started (Attended.deeds ls) := List.mem_filterMap.mpr ⟨_, hq, rfl⟩
    rw [hst] at hq
    rw [requests, List.filterMap_append]
    exact List.mem_append_left _ hq
  exact (hends.abort session' (hasked ha)).2 session key (hasked hp)

/-- **A result of direct cutover describes the stores.**  A worker runs `archive_bucket` among any
appenders and other workers, from any state they reach.  Once it has returned an outcome, the
bucket is archived under the outcome's key with its hot rows deleted, and its object is what readers
were given of it when it was fenced, as many records as the outcome says.  If it abandons the
bucket, readers are given that again from the hot tier.  It never asks for both a publication and an
abort. -/
theorem cutover_result (hG : OwnPaths G)
    (h₀ : System.Reaches (uploading G) (fun _ => True) (.init (∅, fun _ => none)) s₀)
    (hrun : Run (Attended.Move (uploading G) fun _ => True)
      (s₀, Task.init (Job.archiveBucket b).prog) ls (s, t)) :
    (∀ o, t.phase = .finished (.archived (.ok o)) → ∃ rs, FencedOver b ls rs ∧
      (state b s.services.1).1 = .ok (.archived o.objectKey true) ∧
      InMemoryArchive.getBucket b o.objectKey s.services.2 = .ok rs ∧
      o.recordsArchived = rs.length) ∧
    (∀ session y, Attended.Step (uploading G) (fun _ => True) (s, t)
        (some (.serve (.store (.abortArchive session)) (.ok ()))) y →
      ∃ rs, FencedOver b ls rs ∧ (state b (stores y).1).1 = .ok .hot ∧
        contents (stores y) b = .ok rs) ∧
    ∀ session key session', .start (.store (.publishArchive session key)) ∈ Attended.deeds ls →
      .start (.store (.abortArchive session')) ∉ Attended.deeds ls :=
  ⟨fun _ ho => cutover_ok hG h₀ hrun ho, fun _ _ hs => cutover_aborted hG h₀ hrun hs,
    fun _ _ _ hp => published_or_aborted hrun hp⟩

end

namespace Sample

open Pulpitum.Sample (bucket record session)

/-- A store with one entry, of the sample bucket. -/
def entry (state : BucketState) (generation : ℕ) (token : Option String) (lease : Option Instant)
    (records : List Record) : Store :=
  (∅ : Store).insert bucket ⟨state, generation, token, lease, none, records⟩

/-- The stores after one append. -/
def filled : System (uploading (· = bucket)).State where
  services := (entry .hot 0 none none [record], fun _ => none)
  appenders := [⟨bucket, record, .answered (.ok ()), none⟩]
  workers := []
  orphans := []

theorem reaches_filled : System.Reaches (uploading (· = bucket)) (fun _ => True)
    (.init (∅, fun _ => none)) filled := by
  have hserve : (uploading (· = bucket)).serve (.store (.append bucket record))
      (∅, fun _ => none) (.ok ()) filled.services := ⟨trivial, ⟨⟨0, 0, ""⟩, rfl⟩, rfl⟩
  exact .tail (.tail (.tail .refl (.openAppend ⟨_, _, Pulpitum.Sample.routeAppend_record⟩))
    (.send (l := []))) (.serveAppend (l := []) hserve)

/-- The object key of the first generation. -/
def objectKey : String := generationKey bucket 1

/-- A worker that no one disturbs cuts the bucket over. -/
theorem run_direct : ∃ ls s t, Run (Attended.Move (uploading (· = bucket)) fun _ => True)
      (filled, Task.init (Job.archiveBucket bucket).prog) ls (s, t) ∧
    t.phase = .finished (.archived (.ok ⟨bucket, objectKey, 1⟩)) := by
  have store : ∀ {q : StoreRequest} {r : q.Reply} {p p' : Store} {o : Objects},
      exec ⟨0, 0, "owner"⟩ q p = (r, p') →
      (uploading (· = bucket)).serve (.store q) (p, o) r (p', o) :=
    fun h => ⟨trivial, ⟨_, h⟩, rfl⟩
  have hbegin : exec ⟨0, 0, "owner"⟩ (.beginArchive bucket) (entry .hot 0 none none [record]) =
      (.ok session, entry .archiving 1 (some "owner") (some beginLease) [record]) := rfl
  have hsnapshot : exec ⟨0, 0, "owner"⟩ (.snapshot session)
      (entry .archiving 1 (some "owner") (some beginLease) [record]) =
      (.ok [record], entry .archiving 1 (some "owner") (some beginLease) [record]) := rfl
  have hupload : (uploading (· = bucket)).serve
      (.archive (.putBucketGeneration bucket 1 [record]))
      (entry .archiving 1 (some "owner") (some beginLease) [record], fun _ => none) (.ok objectKey)
      (entry .archiving 1 (some "owner") (some beginLease) [record],
        Function.update (fun _ => none) objectKey (some [record])) := ⟨rfl, rfl, rfl⟩
  have hpublish : exec ⟨0, 0, "owner"⟩ (.publishArchive session objectKey)
      (entry .archiving 1 (some "owner") (some beginLease) [record]) =
      (.ok (), entry (.archived objectKey false) 1 (some "owner") (some beginLease) [record]) := rfl
  have hdelete : exec ⟨0, 0, "owner"⟩ (.deleteHotBucket session)
      (entry (.archived objectKey false) 1 (some "owner") (some beginLease) [record]) =
      (.ok (), entry (.archived objectKey true) 1 (some "owner") (some beginLease) []) := rfl
  refine ⟨_, _, _,
    .more (.own .call .start) (.more (.own .serve (.serve (store hbegin)))
    (.more (.own .called .silent) (.more (.own .startRenewer .newRenewer)
    (.more (.own .look .silent) (.more (.own .select .start)
    (.more (.own .serve (.serve (store hsnapshot))) (.more (.own .selected .silent)
    (.more (.own .look .silent) (.more (.own .select .start)
    (.more (.own .serve (.serve hupload)) (.more (.own .selected .silent)
    (.more (.own .look .silent) (.more (.own .select .start)
    (.more (.own .serve (.serve (store hpublish))) (.more (.own .selected .silent)
    (.more (.own .look .silent) (.more (.own .select .start)
    (.more (.own .serve (.serve (store hdelete))) (.more (.own .selected .silent)
    (.more (.own .shutdown .silent) (.more (.own .renew_stop .silent)
    (.more (.own .stopped .silent) (.one (.own .finish .silent)))))))))))))))))))))))), ?_⟩
  rfl

end Sample

/-- One record, cut over by a worker that no one disturbs; uploads for one bucket, as well as those
for canonical ones, go to paths of their own. -/
theorem cutover_result_of_append :
    OwnPaths (· = Pulpitum.Sample.bucket) ∧ OwnPaths BucketId.Canonical ∧
    System.Reaches (uploading (· = Pulpitum.Sample.bucket)) (fun _ => True)
      (.init (∅, fun _ => none)) Sample.filled ∧
    ∃ ls s t, Run (Attended.Move (uploading (· = Pulpitum.Sample.bucket)) fun _ => True)
        (Sample.filled, Task.init (Job.archiveBucket Pulpitum.Sample.bucket).prog) ls (s, t) ∧
      ∃ rs, FencedOver Pulpitum.Sample.bucket ls rs ∧
        (state Pulpitum.Sample.bucket s.services.1).1 = .ok (.archived Sample.objectKey true) ∧
        InMemoryArchive.getBucket Pulpitum.Sample.bucket Sample.objectKey s.services.2 = .ok rs ∧
        1 = rs.length := by
  obtain ⟨ls, s, t, hrun, ho⟩ := Sample.run_direct
  exact ⟨ownPaths_eq _, ownPaths_canonical, Sample.reaches_filled, ls, s, t, hrun,
    (cutover_result (ownPaths_eq _) Sample.reaches_filled hrun).1 _ ho⟩

end InMemory
end Pulpitum
