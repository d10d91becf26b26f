import Mathlib
import Pulpitum.Support.Cutover
import Pulpitum.Application.System

/-!
# Application — Discipline

What the archival workers do, in the terms of `Cutover`: a worker uploads only what it was given
by a snapshot, at the generation of its session, and publishes only a key its upload returned for
that generation.  Which bucket of the abstract cutover a `BucketId` names, and what of a record
the hot tier stores, is a `Coding`.

* `Job.keeps`: every worker keeps this discipline, whatever the stores answer.
* `Task.Keeps.step`: so does every step of a running worker.
-/

namespace Pulpitum

open Cutover (Facts)

variable {κ ρ : Type}

/-- How the stores see buckets and records: the identity of a bucket, what the hot tier stores of
a record, the buckets archival is asked for, and the appends there are. -/
structure Coding (κ ρ : Type) where
  ident : BucketId → κ
  enc : Record → ρ
  Good : BucketId → Prop
  Opens : BucketId → Record → Prop

namespace Coding

/-- Buckets and records are what they are, archival is asked for canonical buckets, and appends are
those of tables. -/
def plain : Coding BucketId Record := ⟨id, id, BucketId.Canonical, DurableTable.Routes⟩

/-- What a worker may ask, given what has been done. -/
def Legit (c : Coding κ ρ) (F : Facts κ ρ String) : Request → Prop
  | .store (.append ..) => False
  | .store (.claimArchive b _) | .store (.claimCleanup b _) | .store (.beginArchive b) => c.Good b
  | .store (.publishArchive s key) => ∃ rs, F.stored (c.ident s.bucket) s.generation rs key
  | .store _ => True
  | .archive (.putBucketGeneration b g rs) => c.Good b ∧ F.snapped (c.ident b) g (rs.map c.enc)
  | .archive (.putBucket ..) => False
  | .archive (.getBucket ..) => True

/-- What a reply teaches. -/
def Learned (c : Coding κ ρ) : (q : Request) → q.Reply → Facts κ ρ String → Prop
  | .store (.claimArchive b _), .ok (some s), _ => s.bucket = b
  | .store (.claimCleanup b _), .ok (some s), _ => s.bucket = b
  | .store (.beginArchive b), .ok s, _ => ArchiveSession.bucket s = b
  | .store (.discoverArchiveWork _), .ok work, _ =>
      ∀ w : ArchiveWork, List.Mem w work → c.Good w.bucket
  | .store (.snapshot s), .ok rs, F =>
      F.snapped (c.ident s.bucket) s.generation (List.map c.enc rs)
  | .archive (.putBucketGeneration b g rs), .ok key, F =>
      F.stored (c.ident b) g (rs.map c.enc) key
  | _, _, _ => True

/-- What the appends and the workers ask of the stores, given what has been done. -/
def Asked (c : Coding κ ρ) (F : Facts κ ρ String) : Request → Prop
  | .store (.append b r) =>
      c.Good b ∧ b.partitionKey = r.partitionKey ∧ b.contains r.eventTime
  | q => c.Legit F q

variable {c : Coding κ ρ} {F G : Facts κ ρ String}

theorem Legit.mono (h : F.Le G) {q : Request} (hq : c.Legit F q) : c.Legit G q := by
  cases q with
  | store q =>
      cases q with
      | publishArchive s key =>
          obtain ⟨rs, hs⟩ := hq
          exact ⟨rs, h.stored hs⟩
      | _ => exact hq
  | archive q =>
      cases q with
      | putBucketGeneration b g rs => exact ⟨hq.1, h.snapped hq.2⟩
      | _ => exact hq

theorem Legit.asked {q : Request} (h : c.Legit F q) : c.Asked F q := by
  unfold Asked
  split
  · exact h.elim
  · exact h

theorem Learned.mono (h : F.Le G) {q : Request} {r : q.Reply} (hl : c.Learned q r F) :
    c.Learned q r G := by
  unfold Learned at hl ⊢
  split at hl
  · exact hl
  · exact hl
  · exact hl
  · exact hl
  · exact h.snapped hl
  · exact h.stored hl
  · trivial

/-- A failure teaches nothing. -/
theorem Learned.of_failed {q : Request} {r : q.Reply} (h : q.Failed r) : c.Learned q r F := by
  cases q with
  | store q => obtain ⟨e, rfl⟩ := h; cases q <;> trivial
  | archive q => obtain ⟨e, rfl⟩ := h; cases q <;> trivial

/-- An operation that issues no session and is not a snapshot teaches at most what it found. -/
theorem Learned.of_look {q : StoreRequest} {r : q.Reply} (hi : q.issued? r = none)
    (hs : ∀ v, r = .ok v → q.session? = none)
    (hd : ∀ scan, q = .discoverArchiveWork scan → c.Learned (.store q) r F) :
    c.Learned (.store q) r F := by
  cases q with
  | claimArchive | claimCleanup =>
      rcases r with e | _ | s
      · trivial
      · trivial
      · cases hi
  | beginArchive =>
      rcases r with e | s
      · trivial
      · cases hi
  | snapshot =>
      rcases r with e | rs
      · trivial
      · cases hs rs rfl
  | discoverArchiveWork scan => exact hd scan rfl
  | _ => cases r <;> trivial

/-- The discipline of the workers. -/
def discipline (c : Coding κ ρ) : Discipline Effect.Answer where
  Fact := Facts κ ρ String
  le := Facts.Le
  le_refl := Facts.Le.refl
  le_trans := Facts.Le.trans
  legit F
    | .call q => c.Legit F q
    | .supervise q => c.Legit F q
    | .startRenewer .. => True
    | .shutdown => True
  learn
    | .call q, r, F => c.Learned q r F
    | .supervise q, .ok r, F => c.Learned q r F
    | .supervise _, .error _, _ => True
    | .startRenewer .., _, _ => True
    | .shutdown, _, _ => True
  legit_mono {F G q} h hq := by
    cases q with
    | call q => exact Legit.mono h hq
    | supervise q => exact Legit.mono h hq
    | startRenewer => trivial
    | shutdown => trivial

end Coding

/-! ### The workers keep it -/

/-- The program asks only what is legitimate, whatever it is answered. -/
abbrev Worker.Keeps {α : Type} (c : Coding κ ρ) (F : Facts κ ρ String) (p : Worker α) : Prop :=
  Prog.Keeps c.discipline F p fun _ _ => True

namespace Worker

variable (c : Coding κ ρ) (F : Facts κ ρ String)

theorem abortWith_keeps (session : ArchiveSession) (error : DurableArchiveError) :
    (abortWith session error).Keeps c F := by
  refine ⟨trivial, fun G _ r _ => ?_⟩
  rcases r with e | e | ⟨⟩ <;> trivial

theorem archiveClaimedBucket_keeps {bucket : BucketId} {session : ArchiveSession}
    (hb : c.Good bucket) (hs : session.bucket = bucket) :
    (archiveClaimedBucket bucket session).Keeps c F := by
  subst hs
  refine ⟨trivial, fun G _ r hr => ?_⟩
  rcases r with e | e | records
  · trivial
  · exact abortWith_keeps c G session _
  refine ⟨⟨hb, hr⟩, fun H _ r hr => ?_⟩
  rcases r with e | e | key
  · trivial
  · exact abortWith_keeps c H session _
  refine ⟨⟨_, hr⟩, fun I _ r _ => ?_⟩
  rcases r with e | e | ⟨⟩
  · trivial
  · trivial
  refine ⟨trivial, fun J _ r _ => ?_⟩
  rcases r with e | e | ⟨⟩ <;> trivial

/-- Work under the renewer, and the shutdown of the renewer. -/
theorem keeps_shutdown {α : Type} {p : Worker α} (h : p.Keeps c F) :
    (do let result ← p; shutdown; return result : Worker α).Keeps c F :=
  Prog.Keeps.seq h fun _ _ _ => ⟨trivial, fun _ _ _ _ => trivial⟩

theorem archiveBucket_keeps {bucket : BucketId} (hb : c.Good bucket) :
    (archiveBucket bucket).Keeps c F := by
  refine ⟨hb, fun G _ r hr => ?_⟩
  rcases r with e | session
  · trivial
  · exact ⟨trivial, fun H _ _ _ => keeps_shutdown c H (archiveClaimedBucket_keeps c H hb hr)⟩

section

variable (cfg : ArchiveRecoveryConfig) {bucket : BucketId} (session : ArchiveSession)
  (outcome : ArchiveRecoveryOutcome)

theorem deferCutover_keeps (error : DurableBucketStoreError) :
    (deferCutover cfg session outcome error).Keeps c F := by
  refine ⟨trivial, fun G _ r _ => ?_⟩
  rcases r with e | e | ⟨⟩ <;> trivial

theorem finishCleanup_keeps : (finishCleanup cfg session outcome).Keeps c F := by
  refine ⟨trivial, fun G _ r _ => ?_⟩
  rcases r with e | e | ⟨⟩
  · trivial
  · refine ⟨trivial, fun H _ r _ => ?_⟩
    rcases r with e | e | ⟨⟩ <;> trivial
  · trivial

theorem publishClaimedCutover_keeps {key : String} {rs : List ρ}
    (hk : F.stored (c.ident session.bucket) session.generation rs key) :
    (publishClaimedCutover cfg bucket session outcome key).Keeps c F := by
  refine ⟨⟨rs, hk⟩, fun G _ r _ => ?_⟩
  rcases r with e | e | ⟨⟩
  · trivial
  · refine ⟨trivial, fun H _ r _ => ?_⟩
    rcases r with e' | e' | _ | _ | ⟨_, _ | _⟩
    · trivial
    · trivial
    · trivial
    · exact deferCutover_keeps c H cfg session outcome e
    · exact finishCleanup_keeps c H cfg session outcome
    · trivial
  · exact finishCleanup_keeps c G cfg session outcome

theorem recoverClaimedCutover_keeps {session : ArchiveSession} (hb : c.Good bucket)
    (hs : session.bucket = bucket) :
    (recoverClaimedCutover cfg bucket session outcome).Keeps c F := by
  subst hs
  refine ⟨trivial, fun G _ r hr => ?_⟩
  rcases r with e | e | records
  · trivial
  · exact deferCutover_keeps c G cfg session outcome e
  refine ⟨⟨hb, hr⟩, fun H _ r hr => ?_⟩
  rcases r with e | e | key
  · trivial
  · refine Prog.Keeps.seq (p := deferCutover cfg session outcome .operationFailed)
      (deferCutover_keeps c H cfg session outcome _) ?_
    rintro ⟨_ | _, _⟩ I _ <;> trivial
  · exact publishClaimedCutover_keeps c H cfg session outcome hr

theorem recoverCutover_keeps (hb : c.Good bucket) :
    (recoverCutover cfg bucket outcome).Keeps c F := by
  refine ⟨hb, fun G _ r hr => ?_⟩
  rcases r with e | _ | session
  · trivial
  · trivial
  · exact ⟨trivial, fun H _ _ _ =>
      keeps_shutdown c H (recoverClaimedCutover_keeps c H cfg _ hb hr)⟩

theorem recoverCleanup_keeps (hb : c.Good bucket) :
    (recoverCleanup cfg bucket outcome).Keeps c F := by
  refine ⟨hb, fun G _ r _ => ?_⟩
  rcases r with e | _ | session
  · trivial
  · trivial
  · exact ⟨trivial, fun H _ _ _ => keeps_shutdown c H (finishCleanup_keeps c H cfg session _)⟩

theorem runItems_keeps (work : List ArchiveWork) :
    ∀ F outcome, (∀ w ∈ work, c.Good w.bucket) → (runItems cfg work outcome).Keeps c F := by
  induction work with
  | nil => exact fun _ _ _ => trivial
  | cons item work ih =>
      intro F outcome hw
      have hitem : c.Good item.bucket := hw item (List.mem_cons_self ..)
      have hrest : ∀ (a : Recovery) G, c.discipline.le F G →
          (runRest cfg work a).Keeps c G := by
        rintro ⟨_ | ⟨⟩, outcome'⟩ G _
        · trivial
        · exact ih G outcome' fun w h => hw w (List.mem_cons_of_mem _ h)
      cases item with
      | cutover b => exact Prog.Keeps.seq (recoverCutover_keeps c F cfg outcome hitem) hrest
      | cleanup b => exact Prog.Keeps.seq (recoverCleanup_keeps c F cfg outcome hitem) hrest

theorem runOnce_keeps : (runOnce cfg).Keeps c F := by
  refine ⟨trivial, fun G _ r hr => ?_⟩
  rcases r with e | work
  · trivial
  · exact runItems_keeps c cfg work G _ hr

end

end Worker

/-- **Every worker keeps the discipline**, whatever is known when it starts. -/
theorem Job.keeps (c : Coding κ ρ) (F : Facts κ ρ String) {job : Job} (h : job.Names c.Good) :
    job.prog.Keeps c F := by
  cases job with
  | archiveBucket bucket =>
      exact Prog.Keeps.seq (Worker.archiveBucket_keeps c F h) fun _ _ _ => trivial
  | runOnce cfg => exact Prog.Keeps.seq (Worker.runOnce_keeps c F cfg) fun _ _ _ => trivial

/-! ### Running workers keep it -/

variable {α : Type} {c : Coding κ ρ} {F G : Facts κ ρ String}

/-- An answer that has arrived taught what it teaches. -/
def Flight.Learned (c : Coding κ ρ) (F : Facts κ ρ String) {q : Request} : Flight q → Prop
  | .pending => True
  | .answered r => c.Learned q r F

/-- Whatever the operation is answered, the worker keeps the discipline. -/
def Wait.Keeps (c : Coding κ ρ) (F : Facts κ ρ String) {q : Request} : Wait q α → Prop
  | .called k => ∀ G, F.Le G → ∀ r, c.Learned q r G → (k r).Keeps c G
  | .selecting k | .polling k =>
      ∀ G, F.Le G → ∀ r, c.discipline.learn (.supervise q) r G → (k r).Keeps c G
  | .draining k e => ∀ G, F.Le G → (k (.error e)).Keeps c G

theorem Flight.Learned.mono (h : F.Le G) {q : Request} {f : Flight q} (hf : f.Learned c F) :
    f.Learned c G := by
  cases f with
  | pending => trivial
  | answered r => exact Coding.Learned.mono h hf

theorem Wait.Keeps.mono (h : F.Le G) {q : Request} {w : Wait q α} (hw : w.Keeps c F) :
    w.Keeps c G := by
  cases w with
  | called k => exact fun H hH => hw H (h.trans hH)
  | selecting k => exact fun H hH => hw H (h.trans hH)
  | polling k => exact fun H hH => hw H (h.trans hH)
  | draining k e => exact fun H hH => hw H (h.trans hH)

theorem Worker.Keeps.mono (h : F.Le G) {p : Worker α} (hp : p.Keeps c F) : p.Keeps c G :=
  Prog.Keeps.mono (fun _ _ _ _ => id) h hp

namespace Task

/-- The worker keeps the discipline from where it is. -/
def Keeps (c : Coding κ ρ) (F : Facts κ ρ String) (t : Task α) : Prop :=
  match t.phase with
  | .run p => p.Keeps c F
  | .awaiting q w f => c.Legit F q ∧ f.Learned c F ∧ w.Keeps c F
  | .looked q k => c.Legit F q ∧ (Wait.selecting k).Keeps c F
  | .unpolled q k e => c.Legit F q ∧ ∀ G, F.Le G → (k (.error e)).Keeps c G
  | .stopping k => (k ()).Keeps c F
  | .finished _ | .crashed => True

/-- What a step asks of the stores is legitimate. -/
def Label.Legit (c : Coding κ ρ) (F : Facts κ ρ String) : Label → Prop
  | serve q _ => c.Legit F q
  | abandon q => c.Legit F q
  | _ => True

/-- What a step teaches. -/
def Label.Learned (c : Coding κ ρ) (F : Facts κ ρ String) : Label → Prop
  | serve q r => c.Learned q r F
  | _ => True

namespace Keeps

theorem mono (h : F.Le G) {t : Task α} (ht : t.Keeps c F) : t.Keeps c G := by
  obtain ⟨p, r, f, b⟩ := t
  cases p with
  | run p => exact Worker.Keeps.mono h ht
  | awaiting q w f => exact ⟨ht.1.mono h, ht.2.1.mono h, ht.2.2.mono h⟩
  | looked q k => exact ⟨ht.1.mono h, ht.2.mono h⟩
  | unpolled q k e => exact ⟨ht.1.mono h, fun H hH => ht.2 H (h.trans hH)⟩
  | stopping k => exact Worker.Keeps.mono h ht
  | finished a => trivial
  | crashed => trivial

/-- **One step of a running worker** asks only what is legitimate, and leaves it keeping the
discipline. -/
theorem step {t t' : Task α} {l : Label} (h : t.Keeps c F) (hs : Step t l t') :
    l.Legit c F ∧ ∀ G, F.Le G → l.Learned c G → t'.Keeps c G := by
  -- a step that others do not see only carries the discipline over to what is known after it
  have quiet : ∀ {t' : Task α}, t'.Keeps c F → ∀ G, F.Le G → True → t'.Keeps c G :=
    fun ht G hG _ => ht.mono hG
  cases hs with
  | call => exact ⟨trivial, quiet ⟨h.1, trivial, h.2⟩⟩
  | called => exact ⟨trivial, quiet (h.2.2 F (.refl F) _ h.2.1)⟩
  | look => exact ⟨trivial, quiet h⟩
  | select => exact ⟨trivial, quiet ⟨h.1, trivial, h.2⟩⟩
  | park => exact ⟨trivial, quiet h⟩
  | poll => exact ⟨trivial, quiet h⟩
  | selected => exact ⟨trivial, quiet (h.2.2 F (.refl F) (.ok _) h.2.1)⟩
  | select_failed =>
      exact ⟨trivial, quiet ⟨h.1, h.2.1, fun G hG => h.2.2 G hG (.error _) trivial⟩⟩
  | first_failed => exact ⟨trivial, quiet ⟨h.1, fun G hG => h.2 G hG (.error _) trivial⟩⟩
  | drain => exact ⟨trivial, quiet ⟨h.1, trivial, h.2⟩⟩
  | drained => exact ⟨trivial, quiet (h.2.2 F (.refl F))⟩
  | startRenewer => exact ⟨trivial, quiet (h.2 F (.refl F) () trivial)⟩
  | shutdown => exact ⟨trivial, quiet (h.2 F (.refl F) () trivial)⟩
  | stopped => exact ⟨trivial, quiet h⟩
  | finish => exact ⟨trivial, quiet trivial⟩
  | serve => exact ⟨h.1, fun G hG hl => ⟨h.1.mono hG, hl, h.2.2.mono hG⟩⟩
  | abandon hf => exact ⟨h.1, quiet ⟨h.1, .of_failed hf, h.2.2⟩⟩
  | lose hf => exact ⟨trivial, quiet ⟨h.1, .of_failed hf, h.2.2⟩⟩
  | crash => exact ⟨trivial, quiet trivial⟩
  | crash_abandon => exact ⟨h.1, quiet trivial⟩
  | renew | renew_stop | renew_lose | renewed | renew_failed => exact ⟨trivial, quiet h⟩
  | renew_serve => exact ⟨trivial, fun G hG _ => mono hG h⟩
  | renew_abandon => exact ⟨trivial, quiet h⟩

end Keeps

end Task

end Pulpitum
