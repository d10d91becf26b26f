import Mathlib
import Pulpitum.Adapters.InMemoryCutover

/-!
# Adapters — In-memory cycle

One cycle of `run_once` over `InMemoryDurableBucketStore` and `InMemoryArchiveStore`, when no one
else uses the stores, every earlier lease and retry time is past, and the cycle ends within the
leases it takes.  Its lease renewers may renew at any time.

* `Working`: what holds while the worker has claimed a bucket; its rules say what each operation
  on the session does.
* `runItems_yields`: every item of work completes, one after another.
* `runOnce_yields`: **the cycle finishes every bucket that is due**, from any state of the store.
-/

namespace Pulpitum
namespace InMemory

open InMemoryArchive (generationKey)

/-! ### A worker alone -/

/-- The stores while one worker uses them: what they hold, the last reading of the clock, and the
session that the worker's renewer renews. -/
structure Cycle where
  store : Store
  objects : Objects
  clock : Instant
  renewer : Option (ArchiveSession × Duration)

/-- The clock goes on from `now`, and not beyond `horizon`. -/
structure Env.Reads (env : Env) (now horizon : Instant) : Prop where
  first : now ≤ env.first
  second : env.first ≤ env.second
  horizon : env.second ≤ horizon

/-- The lease of the session runs beyond the reading `now`. -/
def LeaseRuns (s : Store) (session : ArchiveSession) (now : Instant) : Prop :=
  ∃ x, (orDefault s session.bucket).archiveOwnerExpiresAt = some x ∧ now < x

namespace Cycle

/-- The renewer renews once, before the lease ends. -/
inductive Renews (horizon : Instant) : Cycle → Cycle → Prop where
  | renew {s s' o now env session d} (hr : env.Reads now horizon)
      (hl : LeaseRuns s session env.second) (hd : env.second < env.first + d)
      (h : exec env (.renewArchiveLease session d) s = (.ok (), s')) :
      Renews horizon ⟨s, o, now, some (session, d)⟩ ⟨s', o, env.second, some (session, d)⟩

/-- The stores answer the worker.  An operation on a session comes before its lease ends. -/
inductive Answers (horizon : Instant) :
    (e : Pulpitum.Effect) → Cycle → e.Answer → Cycle → Prop where
  | call {q : StoreRequest} {s s' o now n env} {r : q.Reply} (hr : env.Reads now horizon)
      (h : exec env q s = (r, s')) :
      Answers horizon (.call (.store q)) ⟨s, o, now, n⟩ r ⟨s', o, env.second, n⟩
  | callArchive {q : ArchiveRequest} {s o o' now n} {r : q.Reply}
      (h : InMemoryArchive.exec q o = (r, o')) :
      Answers horizon (.call (.archive q)) ⟨s, o, now, n⟩ r ⟨s, o', now, n⟩
  | supervise {q : StoreRequest} {s s' o now n env} {r : q.Reply} (hr : env.Reads now horizon)
      (hl : ∀ session ∈ q.session?, LeaseRuns s session env.second) (h : exec env q s = (r, s')) :
      Answers horizon (.supervise (.store q)) ⟨s, o, now, n⟩ (.ok r) ⟨s', o, env.second, n⟩
  | superviseArchive {q : ArchiveRequest} {s o o' now n} {r : q.Reply}
      (h : InMemoryArchive.exec q o = (r, o')) :
      Answers horizon (.supervise (.archive q)) ⟨s, o, now, n⟩ (.ok r) ⟨s, o', now, n⟩
  | startRenewer {session d interval s o now n} :
      Answers horizon (.startRenewer session d interval) ⟨s, o, now, n⟩ ()
        ⟨s, o, now, some (session, d)⟩
  | shutdown {s o now n} : Answers horizon .shutdown ⟨s, o, now, n⟩ () ⟨s, o, now, none⟩

/-- The renewer renews any number of times, and then the stores answer. -/
def Serves (horizon : Instant) (e : Pulpitum.Effect) (c : Cycle) (r : e.Answer) (c' : Cycle) :
    Prop :=
  ∃ c₁, Relation.ReflTransGen (Renews horizon) c c₁ ∧ Answers horizon e c₁ r c'

end Cycle

/-! ### Operations that succeed -/

variable {s s' : Store} {o o' : Objects} {b b' : BucketId} {env : Env} {e e' : Entry}
  {session : ArchiveSession}

theorem snapshot_eq_ok (hl : s.lookup session.bucket = some e) (hs : e.state = .archiving)
    (h : e.Held session env.first) :
    exec env (.snapshot session) s = (.ok e.records, s.insert session.bucket e) :=
  withSession_eq_ok hl (by rw [h.validateArchive hs]; rfl)

theorem publishArchive_eq_ok {key : String} (hl : s.lookup session.bucket = some e)
    (hs : e.state = .archiving) (h : e.Held session env.first) :
    exec env (.publishArchive session key) s =
      (.ok (), s.insert session.bucket { e with state := .archived key false }) :=
  withSession_eq_ok hl (by rw [h.validateArchive hs]; rfl)

theorem deleteHotBucket_eq_ok {key : String} (hl : s.lookup session.bucket = some e)
    (hs : e.state = .archived key false) (h : e.Held session env.first) :
    exec env (.deleteHotBucket session) s =
      (.ok (), s.insert session.bucket { e with records := [], state := .archived key true }) :=
  withSession_eq_ok hl (by rw [hs]; dsimp only; rw [h.validate]; rfl)

/-- The lease and the retry time of the entry, where it has them, are past. -/
structure Entry.Due (e : Entry) (now : Instant) : Prop where
  lease : ∀ x ∈ e.archiveOwnerExpiresAt, x ≤ now
  retry : ∀ x ∈ e.nextAttemptAt, x ≤ now

namespace Entry.Due

variable {now now' : Instant}

theorem mono (h : e.Due now) (hn : now ≤ now') : e.Due now' :=
  ⟨fun x hx => (h.lease x hx).trans hn, fun x hx => (h.retry x hx).trans hn⟩

theorem leaseExpired (h : e.Due now) : leaseExpired e now = true := by
  unfold InMemory.leaseExpired
  split
  · rfl
  · rename_i x hx; exact decide_eq_true (h.lease x hx)

theorem attemptDue (h : e.Due now) : attemptDue e now = true := by
  unfold InMemory.attemptDue
  split
  · rfl
  · rename_i x hx; exact decide_eq_true (h.retry x hx)

end Entry.Due

/-- The entry a claim leaves. -/
def Entry.claimed (e : Entry) (state : BucketState) (token : String) (expiresAt : Instant) :
    Entry :=
  ⟨state, e.generation + 1, some token, some expiresAt, none, e.records⟩

theorem claimArchive_eq_ok {d : Duration} (hl : s.lookup b = some e)
    (hs : e.state = .hot ∨ e.state = .archiving) (hdue : e.Due env.first)
    (hg : e.generation + 1 < 2 ^ 64) (hd : d ≠ 0) (hm : env.second + d ≤ Instant.max) :
    exec env (.claimArchive b d) s = (.ok (some ⟨b, env.token, e.generation + 1⟩),
      s.insert b (e.claimed .archiving env.token (env.second + d))) := by
  change claimArchive env b d s = _
  unfold claimArchive
  rw [leaseDeadline_eq_ok hd hm]
  dsimp only
  rw [orDefault_of_lookup hl,
    if_pos ⟨hdue.attemptDue, hs.imp id fun h => ⟨h, hdue.leaseExpired⟩⟩, nextGeneration, if_pos hg]
  rfl

theorem claimCleanup_eq_ok {d : Duration} {key : String} (hl : s.lookup b = some e)
    (hs : e.state = .archived key false) (hdue : e.Due env.first)
    (hg : e.generation + 1 < 2 ^ 64) (hd : d ≠ 0) (hm : env.second + d ≤ Instant.max) :
    exec env (.claimCleanup b d) s = (.ok (some ⟨b, env.token, e.generation + 1⟩),
      s.insert b (e.claimed (.archived key false) env.token (env.second + d))) := by
  change claimCleanup env b d s = _
  unfold claimCleanup
  rw [leaseDeadline_eq_ok hd hm]
  dsimp only
  rw [hl]
  dsimp only
  rw [if_pos ⟨by rw [hs]; rfl, hdue.attemptDue, hdue.leaseExpired⟩, nextGeneration, if_pos hg]
  rw [Entry.claimed, ← hs]
  rfl

/-! ### A claimed bucket -/

/-- The worker holds the session: its bucket is in `state` with `records`, the lease runs, and no
other bucket has changed since `c₀`. -/
structure Working (horizon : Instant) (c₀ : Cycle) (session : ArchiveSession) (d : Duration)
    (state : BucketState) (records : List Record) (o : Objects) (c : Cycle) : Prop where
  objects : c.objects = o
  renewer : ∀ p ∈ c.renewer, p = (session, d)
  since : c₀.clock ≤ c.clock
  horizon : c.clock ≤ horizon
  entry : ∃ x, c.clock < x ∧ c.store.lookup session.bucket =
    some ⟨state, session.generation, some session.ownerToken, some x, none, records⟩
  others : ∀ b, b ≠ session.bucket → c.store.lookup b = c₀.store.lookup b

namespace Working

variable {horizon : Instant} {c₀ : Cycle} {d : Duration} {state state' : BucketState}
  {records records' : List Record} {c c' : Cycle}

/-- The session's entry is stored anew, and the clock goes on within the lease. -/
theorem insert {n : Option (ArchiveSession × Duration)} {now now' x : Instant}
    (h : Working horizon c₀ session d state records o ⟨s, o', now, n⟩) (hn : now ≤ now')
    (hh : now' ≤ horizon) (hx : now' < x)
    (he : e = ⟨state', session.generation, some session.ownerToken, some x, none, records'⟩) :
    Working horizon c₀ session d state' records' o ⟨s.insert session.bucket e, o', now', n⟩ where
  objects := h.objects
  renewer := h.renewer
  since := h.since.trans hn
  horizon := hh
  entry := ⟨x, hx, by subst he; exact AList.lookup_insert s⟩
  others b hb := (AList.lookup_insert_ne hb).trans (h.others b hb)

theorem renews (h : Working horizon c₀ session d state records o c)
    (hr : Cycle.Renews horizon c c') : Working horizon c₀ session d state records o c' := by
  cases hr with
  | @renew s s' o' now env session' d' hr hl hd hx =>
      obtain ⟨rfl, rfl⟩ := Prod.mk.inj (h.renewer _ rfl)
      obtain ⟨x, -, hlook⟩ := h.entry
      have he := exec_effect env (.renewArchiveLease session' d') s
      rw [hx] at he
      cases he with
      | look hq => cases hq
      | renew held =>
          refine h.insert (hr.first.trans hr.second) hr.horizon hd ?_
          rw [orDefault_of_lookup hlook]

theorem renews_star (h : Working horizon c₀ session d state records o c)
    (hr : Relation.ReflTransGen (Cycle.Renews horizon) c c') :
    Working horizon c₀ session d state records o c' := by
  induction hr with
  | refl => exact h
  | tail _ hr ih => exact ih.renews hr

/-- An operation on the session that succeeds whenever its lease runs. -/
theorem supervise {α : Type} (q : StoreRequest) (v : q.Value) (state' : BucketState)
    (records' : List Record) {post : α → Cycle → Prop}
    {k : (Pulpitum.Effect.supervise (.store q)).Answer → Worker α}
    (h : Working horizon c₀ session d state records o c) (hq : q.session? = some session)
    (hexec : ∀ (env : Env) (s : Store) (e : Entry), s.lookup session.bucket = some e →
      e.state = state → e.records = records → e.Held session env.first →
        exec env q s =
          (.ok v, s.insert session.bucket { e with state := state', records := records' }))
    (hk : ∀ c', Working horizon c₀ session d state' records' o c' →
      (k (.ok (.ok v))).Yields (Cycle.Serves horizon) c' post) :
    (Prog.ask (.supervise (.store q)) k).Yields (Cycle.Serves horizon) c post := by
  refine .ask ?_ ?_
  · obtain ⟨s, o', now, n⟩ := c
    obtain ⟨x, hx, hlook⟩ := h.entry
    have hr : Env.Reads ⟨now, now, ""⟩ now horizon := ⟨le_refl _, le_refl _, h.horizon⟩
    refine ⟨_, _, _, .refl, .supervise hr (fun session' hs => ?_) rfl⟩
    obtain rfl : session = session' := Option.some.inj (hq.symm.trans hs)
    exact ⟨x, by rw [orDefault_of_lookup hlook], hx⟩
  · rintro r c' ⟨c₁, hren, hans⟩
    have h := h.renews_star hren
    cases hans with
    | @supervise _ s s' o' now n env r hr hl hx =>
        obtain ⟨x, hlt, hlook⟩ := h.entry
        obtain ⟨y, hy, hrun⟩ := hl session hq
        rw [orDefault_of_lookup hlook] at hy
        obtain rfl : x = y := Option.some.inj hy
        have hheld : Entry.Held ⟨state, session.generation, some session.ownerToken, some x, none,
            records⟩ session env.first := ⟨rfl, rfl, x, rfl, lt_of_le_of_lt hr.second hrun⟩
        rw [hexec env s _ hlook rfl rfl hheld] at hx
        obtain ⟨rfl, rfl⟩ := Prod.mk.inj hx
        exact hk _ (h.insert (hr.first.trans hr.second) hr.horizon hrun rfl)

/-- An upload. -/
theorem put {α : Type} {g : ℕ} {rs : List Record} {post : α → Cycle → Prop}
    {k : (Pulpitum.Effect.supervise (.archive (.putBucketGeneration b g rs))).Answer → Worker α}
    (h : Working horizon c₀ session d state records o c)
    (hk : ∀ c', Working horizon c₀ session d state records
        (Function.update o (generationKey b g) (some rs)) c' →
      (k (.ok (.ok (generationKey b g)))).Yields (Cycle.Serves horizon) c' post) :
    (Prog.ask (.supervise (.archive (.putBucketGeneration b g rs))) k).Yields
      (Cycle.Serves horizon) c post := by
  refine .ask ⟨_, _, _, .refl, .superviseArchive rfl⟩ ?_
  rintro r c' ⟨c₁, hren, hans⟩
  have h := h.renews_star hren
  cases hans with
  | @superviseArchive _ s o' _ now n r hx =>
      obtain ⟨rfl, rfl⟩ := Prod.mk.inj hx
      refine hk _ ⟨?_, h.renewer, h.since, h.horizon, h.entry, h.others⟩
      rw [← h.objects]

theorem startRenewer {α : Type} {interval : Duration} {post : α → Cycle → Prop}
    {k : Unit → Worker α} (h : Working horizon c₀ session d state records o c)
    (hk : ∀ c', Working horizon c₀ session d state records o c' →
      (k ()).Yields (Cycle.Serves horizon) c' post) :
    (Prog.ask (.startRenewer session d interval) k).Yields (Cycle.Serves horizon) c post := by
  refine .ask ⟨_, _, _, .refl, .startRenewer⟩ ?_
  rintro r c' ⟨c₁, hren, hans⟩
  have h := h.renews_star hren
  cases hans with
  | startRenewer =>
      exact hk _ ⟨h.objects, fun p hp => (Option.some.inj hp).symm, h.since, h.horizon, h.entry,
        h.others⟩

theorem shutdown {α : Type} {post : α → Cycle → Prop} {k : Unit → Worker α}
    (h : Working horizon c₀ session d state records o c)
    (hk : ∀ c', Working horizon c₀ session d state records o c' → c'.renewer = none →
      (k ()).Yields (Cycle.Serves horizon) c' post) :
    (Prog.ask .shutdown k).Yields (Cycle.Serves horizon) c post := by
  refine .ask ⟨_, _, _, .refl, .shutdown⟩ ?_
  rintro r c' ⟨c₁, hren, hans⟩
  have h := h.renews_star hren
  cases hans with
  | shutdown =>
      exact hk _ ⟨h.objects, fun _ => (nomatch ·), h.since, h.horizon, h.entry, h.others⟩ rfl

/-- Work on a claimed bucket under its renewer, until the renewer is shut down. -/
theorem underRenewer {α : Type} {interval : Duration} {p : Worker α} {a : α}
    (h : Working horizon c₀ session d state records o c)
    (hp : ∀ c, Working horizon c₀ session d state records o c →
      p.Yields (Cycle.Serves horizon) c fun r c' =>
        r = a ∧ Working horizon c₀ session d state' records' o' c') :
    (do
      Worker.startRenewer session d interval
      let result ← p
      Worker.shutdown
      return result : Worker α).Yields (Cycle.Serves horizon) c fun r c' =>
        r = a ∧ Working horizon c₀ session d state' records' o' c' ∧ c'.renewer = none := by
  refine h.startRenewer fun c' hw => ?_
  refine Prog.Yields.bind (p := p) ((hp c' hw).imp ?_)
  rintro r c' ⟨rfl, hw⟩
  exact hw.shutdown fun c' hw hn => ⟨rfl, hw, hn⟩

variable {cfg : ArchiveRecoveryConfig} {outcome : ArchiveRecoveryOutcome}

/-- Cleanup completes. -/
theorem finishCleanup {key : String}
    (h : Working horizon c₀ session d (.archived key false) records o c) :
    (finishCleanup cfg session outcome).Yields (Cycle.Serves horizon) c fun r c' =>
      r = (.ok (), { outcome with completed := outcome.completed + 1 }) ∧
        Working horizon c₀ session d (.archived key true) [] o c' := by
  refine h.supervise (.deleteHotBucket session) () (.archived key true) [] rfl
    (fun env s e hl hs _ held => deleteHotBucket_eq_ok hl hs held) ?_
  exact fun c' hw => ⟨rfl, hw⟩

/-- The cutover of a claimed bucket goes from the snapshot to the end of the cleanup. -/
theorem recoverClaimedCutover
    (h : Working horizon c₀ session d .archiving records o c) :
    (recoverClaimedCutover cfg session.bucket session outcome).Yields (Cycle.Serves horizon) c
      fun r c' => r = (.ok (), { outcome with completed := outcome.completed + 1 }) ∧
        Working horizon c₀ session d
          (.archived (generationKey session.bucket session.generation) true) []
          (Function.update o (generationKey session.bucket session.generation) (some records))
          c' := by
  refine h.supervise (.snapshot session) records .archiving records rfl
    (fun env s e hl hs hrs held => ?_) fun c' h => ?_
  · rw [snapshot_eq_ok hl hs held, ← hs, ← hrs]
  refine h.put fun c' h => ?_
  refine h.supervise (.publishArchive session _) () (.archived _ false) records rfl
    (fun env s e hl hs hrs held => ?_) fun c' h => h.finishCleanup
  rw [publishArchive_eq_ok hl hs held]
  subst hrs
  rfl

end Working

/-! ### One item of work -/

/-- The item can be claimed from `now` on. -/
def Ready (s : Store) (now : Instant) (w : ArchiveWork) : Prop :=
  ∃ e, s.lookup w.bucket = some e ∧ e.Due now ∧ e.generation + 1 < 2 ^ 64 ∧
    match w with
    | .cutover _ => e.state = .hot ∨ e.state = .archiving
    | .cleanup _ => ∃ key, e.state = .archived key false

/-- What an item of work does to the stores when it is completed. -/
inductive Handled : Store × Objects → ArchiveWork → Store × Objects → Prop where
  | cutover {b : BucketId} {s s' : Store} {o : Objects} {e e' : Entry} (hl : s.lookup b = some e)
      (hs : e.state = .hot ∨ e.state = .archiving) (hl' : s'.lookup b = some e')
      (hs' : e'.state = .archived (generationKey b (e.generation + 1)) true)
      (hrs : e'.records = []) (others : ∀ b', b' ≠ b → s'.lookup b' = s.lookup b') :
      Handled (s, o) (.cutover b)
        (s', Function.update o (generationKey b (e.generation + 1)) (some e.records))
  | cleanup {b : BucketId} {s s' : Store} {o : Objects} {e e' : Entry} {key : String}
      (hl : s.lookup b = some e) (hs : e.state = .archived key false)
      (hl' : s'.lookup b = some e') (hs' : e'.state = .archived key true) (hrs : e'.records = [])
      (others : ∀ b', b' ≠ b → s'.lookup b' = s.lookup b') :
      Handled (s, o) (.cleanup b) (s', o)

/-- The worker is between two items: no renewer runs, and the clock has gone on from `c₀`. -/
structure Between (horizon : Instant) (c₀ c : Cycle) : Prop where
  renewer : c.renewer = none
  since : c₀.clock ≤ c.clock
  horizon : c.clock ≤ horizon

section

variable {horizon : Instant} {c₀ c : Cycle} {cfg : ArchiveRecoveryConfig}
  {outcome : ArchiveRecoveryOutcome}

theorem Between.eq_of_renews {c' : Cycle} (h : c.renewer = none)
    (hr : Relation.ReflTransGen (Cycle.Renews horizon) c c') : c' = c := by
  cases hr.cases_head with
  | inl h => exact h.symm
  | inr hr =>
      obtain ⟨c₁, hr, -⟩ := hr
      cases hr with
      | renew => cases h

/-- A claim that succeeds. -/
theorem yields_claim {α : Type} (q : StoreRequest) (v : String → q.Value)
    {post : α → Cycle → Prop} {k : q.Reply → Worker α} {state : BucketState}
    (hn : c.renewer = none) (hh : c.clock ≤ horizon) (hd : cfg.leaseFor ≠ 0)
    (hexec : ∀ env : Env, env.Reads c.clock horizon →
      exec env q c.store = (.ok (v env.token), c.store.insert b
        (e.claimed state env.token (env.second + cfg.leaseFor))))
    (hk : ∀ (token : String) (c' : Cycle), Working horizon c ⟨b, token, e.generation + 1⟩
        cfg.leaseFor state e.records c.objects c' →
      (k (.ok (v token))).Yields (Cycle.Serves horizon) c' post) :
    (Prog.ask (.call (.store q)) k).Yields (Cycle.Serves horizon) c post := by
  refine .ask ?_ ?_
  · have hr : Env.Reads ⟨c.clock, c.clock, ""⟩ c.clock horizon := ⟨le_refl _, le_refl _, hh⟩
    exact ⟨_, _, _, .refl, .call hr rfl⟩
  · rintro r c' ⟨c₁, hren, hans⟩
    obtain rfl := Between.eq_of_renews hn hren
    cases hans with
    | @call _ s s' o now n env r hr hx =>
        rw [hexec env hr] at hx
        obtain ⟨rfl, rfl⟩ := Prod.mk.inj hx
        refine hk env.token _ ⟨rfl, fun p hp => ?_, hr.first.trans hr.second, hr.horizon,
          ⟨_, Nat.lt_add_of_pos_right (Nat.pos_of_ne_zero hd), AList.lookup_insert s⟩,
          fun b' hb' => AList.lookup_insert_ne hb'⟩
        have hn : n = none := hn
        rw [hn] at hp
        cases hp

/-- The item is counted as claimed and completed, and handled. -/
structure Completed (horizon : Instant) (c : Cycle) (w : ArchiveWork)
    (outcome : ArchiveRecoveryOutcome) (r : Recovery) (c' : Cycle) : Prop where
  result : r = (.ok (), { outcome with
    claimed := outcome.claimed + 1
    completed := outcome.completed + 1 })
  between : Between horizon c c'
  handled : Handled (c.store, c.objects) w (c'.store, c'.objects)

/-- A cutover that is due completes. -/
theorem recoverCutover_yields (hn : c.renewer = none) (hh : c.clock ≤ horizon)
    (hd : cfg.leaseFor ≠ 0) (hm : horizon + cfg.leaseFor ≤ Instant.max)
    (hready : Ready c.store c.clock (.cutover b)) :
    (recoverCutover cfg b outcome).Yields (Cycle.Serves horizon) c
      (Completed horizon c (.cutover b) outcome) := by
  obtain ⟨e, hl, hdue, hg, hs⟩ := hready
  refine yields_claim (.claimArchive b cfg.leaseFor)
    (fun token => some ⟨b, token, e.generation + 1⟩) hn hh hd
    (fun env hr => claimArchive_eq_ok hl hs (hdue.mono hr.first) hg hd
      ((Nat.add_le_add_right hr.horizon _).trans hm)) fun token c' hw => ?_
  refine (hw.underRenewer fun c' hw => hw.recoverClaimedCutover).imp ?_
  rintro r c' ⟨rfl, hw, hn'⟩
  obtain ⟨x, -, hlook⟩ := hw.entry
  refine ⟨rfl, ⟨hn', hw.since, hw.horizon⟩, ?_⟩
  rw [hw.objects]
  exact .cutover hl hs hlook rfl rfl hw.others

/-- A cleanup that is due completes. -/
theorem recoverCleanup_yields (hn : c.renewer = none) (hh : c.clock ≤ horizon)
    (hd : cfg.leaseFor ≠ 0) (hm : horizon + cfg.leaseFor ≤ Instant.max)
    (hready : Ready c.store c.clock (.cleanup b)) :
    (recoverCleanup cfg b outcome).Yields (Cycle.Serves horizon) c
      (Completed horizon c (.cleanup b) outcome) := by
  obtain ⟨e, hl, hdue, hg, key, hs⟩ := hready
  refine yields_claim (.claimCleanup b cfg.leaseFor)
    (fun token => some ⟨b, token, e.generation + 1⟩) hn hh hd
    (fun env hr => claimCleanup_eq_ok hl hs (hdue.mono hr.first) hg hd
      ((Nat.add_le_add_right hr.horizon _).trans hm)) fun token c' hw => ?_
  refine (hw.underRenewer fun c' hw => hw.finishCleanup).imp ?_
  rintro r c' ⟨rfl, hw, hn'⟩
  obtain ⟨x, -, hlook⟩ := hw.entry
  refine ⟨rfl, ⟨hn', hw.since, hw.horizon⟩, ?_⟩
  rw [hw.objects]
  exact .cleanup hl hs hlook rfl rfl hw.others

/-! ### The cycle -/

theorem Handled.others {p p' : Store × Objects} {w : ArchiveWork} (h : Handled p w p')
    {b : BucketId} (hb : b ≠ w.bucket) : p'.1.lookup b = p.1.lookup b := by
  cases h with
  | cutover _ _ _ _ _ others => exact others b hb
  | cleanup _ _ _ _ _ others => exact others b hb

/-- An item stays ready while another bucket is handled. -/
theorem Ready.mono {now now' : Instant} {w : ArchiveWork} (h : Ready s now w) (hn : now ≤ now')
    (hl : s'.lookup w.bucket = s.lookup w.bucket) : Ready s' now' w := by
  obtain ⟨e, he, hdue, hg, hs⟩ := h
  exact ⟨e, hl.trans he, hdue.mono hn, hg, hs⟩

/-- **Every item completes**, one after another. -/
theorem runItems_yields (hd : cfg.leaseFor ≠ 0) (hm : horizon + cfg.leaseFor ≤ Instant.max)
    (work : List ArchiveWork) : ∀ (c : Cycle) (outcome : ArchiveRecoveryOutcome),
      c.renewer = none → c.clock ≤ horizon → (work.map ArchiveWork.bucket).Nodup →
      (∀ w ∈ work, Ready c.store c.clock w) →
      (runItems cfg work outcome).Yields (Cycle.Serves horizon) c fun r c' =>
        r = .ok { outcome with
          claimed := outcome.claimed + work.length
          completed := outcome.completed + work.length } ∧
        Run Handled (c.store, c.objects) work (c'.store, c'.objects) := by
  induction work with
  | nil => exact fun c outcome _ _ _ _ => ⟨rfl, .refl _⟩
  | cons w work ih =>
      intro c outcome hn hh hdis hready
      have hdis := List.nodup_cons.mp hdis
      have hw := hready w (List.mem_cons_self ..)
      have hrest : ∀ (r : Recovery) (c' : Cycle), Completed horizon c w outcome r c' →
          (runRest cfg work r).Yields (Cycle.Serves horizon) c' fun r c' =>
            r = .ok { outcome with
              claimed := outcome.claimed + (work.length + 1)
              completed := outcome.completed + (work.length + 1) } ∧
            Run Handled (c.store, c.objects) (w :: work) (c'.store, c'.objects) := by
        rintro r c' ⟨rfl, hb, hhandled⟩
        refine (ih c' _ hb.renewer hb.horizon hdis.2 fun w' hw' => ?_).imp fun r c'' h => ?_
        · refine (hready w' (List.mem_cons_of_mem _ hw')).mono hb.since (hhandled.others ?_)
          exact fun h => hdis.1 (h ▸ List.mem_map_of_mem hw')
        · obtain ⟨rfl, hrun⟩ := h
          refine ⟨?_, .more hhandled hrun⟩
          simp only [Nat.add_assoc, Nat.add_comm 1]
      cases w with
      | cutover b => exact .bind ((recoverCutover_yields hn hh hd hm hw).imp hrest)
      | cleanup b => exact .bind ((recoverCleanup_yields hn hh hd hm hw).imp hrest)

end

/-! ### Discovery -/

/-- The work the entries offer at the reading `now`. -/
def offered (scan : ArchiveScan) (now : Instant) (s : Store) : List ArchiveWork :=
  s.entries.filterMap fun e => workOf scan now e.1 e.2

section

variable {scan : ArchiveScan} {now now' : Instant} {w : ArchiveWork}

/-- The work of an entry whose lease and retry time are past. -/
theorem workOf_of_due (h : e.Due now) :
    workOf scan now b e = match e.state with
      | .archived _ false => some (.cleanup b)
      | .archived _ true => none
      | .hot | .archiving =>
          if b.endAt ≤ scan.eligibleBefore then some (.cutover b) else none := by
  unfold workOf
  rw [h.attemptDue, h.leaseExpired]
  cases e.state with
  | hot | archiving => simp
  | archived key deleted => cases deleted <;> simp

theorem offered_eq_of_due (h : ∀ b e, s.lookup b = some e → e.Due now) (hn : now ≤ now') :
    offered scan now' s = offered scan now s := by
  refine List.filterMap_congr fun x hx => ?_
  have hdue := h x.1 x.2 (AList.mem_lookup_iff.mpr hx)
  rw [workOf_of_due hdue, workOf_of_due (hdue.mono hn)]

/-- No bucket is offered twice. -/
theorem offered_nodup : ((offered scan now s).map ArchiveWork.bucket).Nodup := by
  have hsub : ∀ l : List ((_ : BucketId) × Entry),
      ((l.filterMap fun e => workOf scan now e.1 e.2).map ArchiveWork.bucket).Sublist
        (l.map Sigma.fst) := by
    intro l
    induction l with
    | nil => exact .slnil
    | cons x l ih =>
        rw [List.filterMap_cons]
        cases hw : workOf scan now x.1 x.2 with
        | none => exact ih.cons _
        | some w =>
            dsimp only
            rw [List.map_cons, List.map_cons, bucket_of_workOf hw]
            exact ih.cons_cons _
  exact (hsub s.entries).nodup s.nodupKeys

/-- What is offered can be claimed. -/
theorem ready_of_offered (hdue : ∀ b e, s.lookup b = some e → e.Due now)
    (hg : ∀ b e, s.lookup b = some e → e.generation + 1 < 2 ^ 64)
    (h : w ∈ offered scan now s) : Ready s now w := by
  obtain ⟨⟨b, e⟩, hentry, hw⟩ := List.mem_filterMap.mp h
  have hl := AList.mem_lookup_iff.mpr hentry
  have hb : w.bucket = b := bucket_of_workOf hw
  refine ⟨e, hb ▸ hl, hdue b e hl, hg b e hl, ?_⟩
  dsimp only at hw
  rw [workOf_of_due (hdue b e hl)] at hw
  cases hs : e.state with
  | hot | archiving =>
      rw [hs] at hw
      dsimp only at hw
      split at hw
      · cases hw; simp
      · cases hw
  | archived key deleted =>
      rw [hs] at hw
      cases deleted with
      | false => cases hw; exact ⟨key, rfl⟩
      | true => cases hw

/-- Every bucket that is eligible or published is offered, unless it is finished. -/
theorem offered_or_finished (hdue : e.Due now) (hl : s.lookup b = some e)
    (h : b.endAt ≤ scan.eligibleBefore ∨ ∃ key deleted, e.state = .archived key deleted) :
    (∃ key, e.state = .archived key true) ∨ ∃ w ∈ offered scan now s, w.bucket = b := by
  have hoffer : ∀ w, workOf scan now b e = some w → ∃ w ∈ offered scan now s, w.bucket = b :=
    fun w hw => ⟨w, List.mem_filterMap.mpr ⟨⟨b, e⟩, AList.mem_lookup_iff.mp hl, hw⟩,
      bucket_of_workOf hw⟩
  have hw : workOf scan now b e = _ := workOf_of_due hdue
  cases hs : e.state with
  | hot | archiving =>
      rw [hs] at hw h
      have hend : b.endAt ≤ scan.eligibleBefore := h.resolve_right fun ⟨_, _, h⟩ => nomatch h
      exact .inr (hoffer _ (hw.trans (if_pos hend)))
  | archived key deleted =>
      rw [hs] at hw
      cases deleted with
      | false => exact .inr (hoffer _ hw)
      | true => exact .inl ⟨key, rfl⟩

/-- What discovery lists without its limit: cleanups before cutovers, each in the order of their
buckets. -/
def discovered (scan : ArchiveScan) (now : Instant) (s : Store) : List ArchiveWork :=
  ((offered scan now s).filter fun w => w = .cleanup w.bucket).insertionSort
      (fun l r => l.bucket ≤ r.bucket) ++
    ((offered scan now s).filter fun w => w = .cutover w.bucket).insertionSort
      (fun l r => l.bucket ≤ r.bucket)

theorem discover_eq (env : Env) (scan : ArchiveScan) (s : Store) :
    exec env (.discoverArchiveWork scan) s =
      (.ok ((discovered scan env.first s).take scan.limit), s) := rfl

theorem discovered_perm : (discovered scan now s).Perm (offered scan now s) := by
  have hcut : ((offered scan now s).filter fun w => w = .cutover w.bucket) =
      (offered scan now s).filter fun w => !decide (w = .cleanup w.bucket) := by
    refine List.filter_congr fun w _ => ?_
    cases w <;> simp [ArchiveWork.bucket]
  refine ((List.perm_insertionSort _ _).append (List.perm_insertionSort _ _)).trans ?_
  rw [hcut]
  exact List.filter_append_perm _ _

/-- Discovery finds all that is offered, if the limit allows it. -/
theorem discover_perm (hlim : (offered scan env.first s).length ≤ scan.limit) :
    ∃ work : List ArchiveWork, exec env (.discoverArchiveWork scan) s = (.ok work, s) ∧
      work.Perm (offered scan env.first s) := by
  refine ⟨_, discover_eq env scan s, ?_⟩
  have hperm : (discovered scan env.first s).Perm (offered scan env.first s) := discovered_perm
  rw [List.take_of_length_le (hperm.length_eq.le.trans hlim)]
  exact hperm

end

/-- Where a cycle starts: the configuration is valid, every lease and retry time is past, no
generation is at its limit, the scan has room for all that is due, and the clock can represent
every deadline up to `horizon`. -/
structure Start (cfg : ArchiveRecoveryConfig) (s : Store) (now horizon : Instant) : Prop where
  config : cfg.validate = .ok ()
  limit_u32 : cfg.scanLimit < 2 ^ 32
  generation : ∀ b e, s.lookup b = some e → e.generation < 2 ^ 64 - 1
  due : ∀ b e, s.lookup b = some e → e.Due now
  limit : (offered ⟨cfg.eligibleBefore, cfg.scanLimit⟩ now s).length ≤ cfg.scanLimit
  started : now ≤ horizon
  deadline : horizon + cfg.leaseFor ≤ Instant.max

/-- **The cycle finishes every bucket that is due**: it discovers all that is offered, and claims
and completes all it discovers. -/
theorem runOnce_yields {cfg : ArchiveRecoveryConfig} {now horizon : Instant}
    (h : Start cfg s now horizon) :
    (runOnce cfg).Yields (Cycle.Serves horizon) ⟨s, o, now, none⟩ fun r c' =>
      ∃ work : List ArchiveWork,
        work.Perm (offered ⟨cfg.eligibleBefore, cfg.scanLimit⟩ now s) ∧
        r = .ok ⟨work.length, work.length, work.length, 0⟩ ∧
        Run Handled (s, o) work (c'.store, c'.objects) := by
  have hd : cfg.leaseFor ≠ 0 := by
    intro hz
    have hcfg := h.config
    rw [ArchiveRecoveryConfig.validate, if_pos (by simp [hz])] at hcfg
    cases hcfg
  have hg : ∀ b e, s.lookup b = some e → e.generation + 1 < 2 ^ 64 := fun b e hl =>
    Nat.lt_sub_iff_add_lt.mp (h.generation b e hl)
  refine .ask ?_ ?_
  · have hr : Env.Reads ⟨now, now, ""⟩ now horizon := ⟨le_refl _, le_refl _, h.started⟩
    exact ⟨_, _, _, .refl, .call hr rfl⟩
  · rintro r c' ⟨c₁, hren, hans⟩
    obtain rfl := Between.eq_of_renews rfl hren
    cases hans with
    | @call _ _ s' _ _ _ env r hr hx =>
        have hsame : offered ⟨cfg.eligibleBefore, cfg.scanLimit⟩ env.first s =
            offered ⟨cfg.eligibleBefore, cfg.scanLimit⟩ now s := offered_eq_of_due h.due hr.first
        obtain ⟨work, hexec, hperm⟩ := discover_perm (hsame ▸ h.limit)
        rw [hexec] at hx
        obtain ⟨rfl, rfl⟩ := Prod.mk.inj hx
        rw [hsame] at hperm
        have hlen : work.length % 2 ^ 32 = work.length :=
          Nat.mod_eq_of_lt (lt_of_le_of_lt (hperm.length_eq.le.trans h.limit) h.limit_u32)
        have hready : ∀ w ∈ work, Ready s env.second w := fun w hw =>
          (ready_of_offered h.due hg (hperm.mem_iff.mp hw)).mono (hr.first.trans hr.second) rfl
        refine (runItems_yields hd h.deadline work ⟨s, o, env.second, none⟩
          ⟨work.length % 2 ^ 32, 0, 0, 0⟩ rfl hr.horizon
          ((hperm.map _).nodup_iff.mpr offered_nodup) hready).imp ?_
        rintro r c' ⟨rfl, hrun⟩
        refine ⟨work, hperm, ?_, hrun⟩
        rw [hlen]
        simp

/-- The bucket is archived, and its hot records are deleted. -/
def Finished (s : Store) (b : BucketId) : Prop :=
  ∃ e key, s.lookup b = some e ∧ e.state = .archived key true

/-- A finished bucket stays finished. -/
theorem Handled.finished {p p' : Store × Objects} {w : ArchiveWork} (h : Handled p w p')
    (hb : Finished p.1 b) : Finished p'.1 b := by
  obtain ⟨e, key, hl, hs⟩ := hb
  by_cases hw : b = w.bucket
  · cases h with
    | @cutover _ _ _ _ e₁ _ hl₁ hs₁ =>
        subst hw
        obtain rfl : e₁ = e := Option.some.inj (hl₁.symm.trans hl)
        rw [hs] at hs₁
        rcases hs₁ with hs₁ | hs₁ <;> cases hs₁
    | @cleanup _ _ _ _ e₁ _ _ hl₁ hs₁ =>
        subst hw
        obtain rfl : e₁ = e := Option.some.inj (hl₁.symm.trans hl)
        rw [hs] at hs₁
        cases hs₁
  · exact ⟨e, key, (h.others hw).trans hl, hs⟩

/-- A handled bucket is finished. -/
theorem Handled.finishes {p p' : Store × Objects} {w : ArchiveWork} (h : Handled p w p') :
    Finished p'.1 w.bucket := by
  cases h with
  | cutover _ _ hl' hs' => exact ⟨_, _, hl', hs'⟩
  | cleanup _ _ hl' hs' => exact ⟨_, _, hl', hs'⟩

theorem finished_of_run {p p' : Store × Objects} {work : List ArchiveWork}
    (h : Run Handled p work p') :
    (∀ b, Finished p.1 b → Finished p'.1 b) ∧ ∀ w ∈ work, Finished p'.1 w.bucket := by
  induction h with
  | refl => exact ⟨fun _ => id, fun _ hw => absurd hw List.not_mem_nil⟩
  | more h _ ih =>
      refine ⟨fun b hb => ih.1 b (h.finished hb), fun w hw => ?_⟩
      rcases List.mem_cons.mp hw with rfl | hw
      · exact ih.1 _ h.finishes
      · exact ih.2 w hw

end InMemory
end Pulpitum
