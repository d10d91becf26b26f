import Mathlib
import Pulpitum.Adapters.ArchiveCache
import Pulpitum.Adapters.Tiers

/-!
# Adapters — Archive cache tier

`ImmutableArchiveCache` in front of the archive store below a table: any number of processes, each
with a cache and with calls on it.  A read is answered from the cache of its process or by the inner
store; lookups, fills, invalidations and reads of others come in between.

* `CacheServes.keeps`: **a read answered from a cache is the one of the inner store.**
* `cachedTier`: the caches in front of an archive store are one.
-/

namespace Pulpitum
namespace ArchiveCache

open Cockroach (ArchiveTier KeyOf)

/-! ### The caches -/

/-- The inner store, and the processes over it. -/
structure Cached (σ : Type) where
  inner : σ
  processes : List Caching

/-- A call of a write, answered by the inner store. -/
def Put.answer (p : Put) : Except StoreError String → Put
  | .ok key => { p with stored := some (.ok key) }
  | .error e => { p with stored := some (.error e), returned := true }

section

variable {σ : Type} (limits : Limits) (serve : (q : ArchiveRequest) → σ → q.Reply → σ → Prop)

/-- An answer to a call in one of the processes: the entry that its lookup finds, or what the inner
store answers. -/
inductive CacheServes : (q : ArchiveRequest) → Cached σ → q.Reply → Cached σ → Prop where
  | hit {x : σ} {l l' : List Caching} {c : Cache} {m m' : List Get} {ps : List Put} {b : BucketId}
      {k : String} {rs : List Record} (h : (c.getCached b k).1 = some rs) :
      CacheServes (.getBucket b k)
        ⟨x, l ++ ⟨c, m ++ ⟨b, k, none, none, none⟩ :: m', ps⟩ :: l'⟩ (.ok rs)
        ⟨x, l ++ ⟨(c.getCached b k).2,
          m ++ ⟨b, k, some (some rs), none, some (.ok rs)⟩ :: m', ps⟩ :: l'⟩
  | consult {x x' : σ} {l l' : List Caching} {c : Cache} {m m' : List Get} {ps : List Put}
      {b : BucketId} {k : String} {rs : List Record} (h : serve (.getBucket b k) x (.ok rs) x') :
      CacheServes (.getBucket b k)
        ⟨x, l ++ ⟨c, m ++ ⟨b, k, some none, none, none⟩ :: m', ps⟩ :: l'⟩ (.ok rs)
        ⟨x', l ++ ⟨c, m ++ ⟨b, k, some none, some (.ok rs), none⟩ :: m', ps⟩ :: l'⟩
  | consult_failed {x x' : σ} {l l' : List Caching} {c : Cache} {m m' : List Get} {ps : List Put}
      {b : BucketId} {k : String} {e : StoreError} (h : serve (.getBucket b k) x (.error e) x') :
      CacheServes (.getBucket b k)
        ⟨x, l ++ ⟨c, m ++ ⟨b, k, some none, none, none⟩ :: m', ps⟩ :: l'⟩ (.error e)
        ⟨x', l ++ ⟨c, m ++ ⟨b, k, some none, some (.error e), some (.error e)⟩ :: m', ps⟩ :: l'⟩
  | putBucket {x x' : σ} {l l' : List Caching} {c : Cache} {gs : List Get} {ps ps' : List Put}
      {b : BucketId} {rs : List Record} {r : Except StoreError String}
      (h : serve (.putBucket b rs) x r x') :
      CacheServes (.putBucket b rs)
        ⟨x, l ++ ⟨c, gs, ps ++ ⟨.putBucket b rs, b, none, false⟩ :: ps'⟩ :: l'⟩ r
        ⟨x', l ++ ⟨c, gs, ps ++ Put.answer ⟨.putBucket b rs, b, none, false⟩ r :: ps'⟩ :: l'⟩
  | putBucketGeneration {x x' : σ} {l l' : List Caching} {c : Cache} {gs : List Get}
      {ps ps' : List Put} {b : BucketId} {g : ℕ} {rs : List Record} {r : Except StoreError String}
      (h : serve (.putBucketGeneration b g rs) x r x') :
      CacheServes (.putBucketGeneration b g rs)
        ⟨x, l ++ ⟨c, gs, ps ++ ⟨.putBucketGeneration b g rs, b, none, false⟩ :: ps'⟩ :: l'⟩ r
        ⟨x', l ++ ⟨c, gs,
          ps ++ Put.answer ⟨.putBucketGeneration b g rs, b, none, false⟩ r :: ps'⟩ :: l'⟩

/-- A step of the processes in which nothing is written to the inner store. -/
inductive QuietCache : Cached σ → Cached σ → Prop where
  | start {x : σ} {ps : List Caching} : QuietCache ⟨x, ps⟩ ⟨x, .init :: ps⟩
  /-- A step within a cache: no record list is taken from the inner store. -/
  | process {x : σ} {l l' : List Caching} {p p' : Caching}
      (h : Caching.Step limits (fun _ _ => none) p p') :
      QuietCache ⟨x, l ++ p :: l'⟩ ⟨x, l ++ p' :: l'⟩
  /-- A read of another client. -/
  | read {s s' : Cached σ} {b : BucketId} {k : String} {r : Except StoreError (List Record)}
      (h : CacheServes serve (.getBucket b k) s r s') : QuietCache s s'

/-- An operation, with whatever the processes do until then. -/
def serveCached (q : ArchiveRequest) (s : Cached σ) (r : q.Reply) (s' : Cached σ) : Prop :=
  ∃ s₁, Relation.ReflTransGen (QuietCache limits serve) s s₁ ∧ CacheServes serve q s₁ r s'

end

/-! ### Coherence -/

variable {limits : Limits} {contents : BucketId → String → Option (List Record)}

/-- A step within a cache is one whatever the inner store has. -/
theorem Caching.Step.of_none {p p' : Caching}
    (h : Caching.Step limits (fun _ _ => none) p p') : Caching.Step limits contents p p' := by
  cases h with
  | openGet => exact .openGet
  | hit h => exact .hit h
  | miss h => exact .miss h
  | consult h => cases h
  | consult_failed => exact .consult_failed
  | fill => exact .fill
  | dropGet => exact .dropGet
  | openPut h => exact .openPut h
  | put => exact .put
  | put_failed => exact .put_failed
  | invalidate => exact .invalidate
  | dropPut => exact .dropPut

variable {Good : BucketId → Prop} {objectKey : BucketId → Option ℕ → List Record → String}

/-- The inner store returns at most one record list for a bucket and a key. -/
def Immutable (A : ArchiveTier Good objectKey)
    (contents : BucketId → String → Option (List Record)) : Prop :=
  ∀ {x x' o b key rs}, A.Keeps x o → A.serve (.getBucket b key) x (.ok rs) x' →
    contents b key = some rs

/-- The inner store keeps the objects, and the caches are coherent. -/
def KeepsCached (A : ArchiveTier Good objectKey)
    (contents : BucketId → String → Option (List Record)) (s : Cached A.State) (o : Objects) :
    Prop :=
  A.Keeps s.inner o ∧ ∀ p ∈ s.processes, p.Inv contents

variable {A : ArchiveTier Good objectKey} {s s' : Cached A.State} {o : Objects} {b : BucketId}
  {k : String}

variable (limits) in
/-- A step of one process leaves all of them sound. -/
theorem inv_replace {l l' : List Caching} {p p' : Caching} (h : ∀ x ∈ l ++ p :: l', x.Inv contents)
    (hs : Caching.Step limits contents p p') : ∀ x ∈ l ++ p' :: l', x.Inv contents :=
  forall_mem_replace h ((h p (List.mem_append_right _ (List.mem_cons_self ..))).step hs)

/-- **A read answered from a cache is the one of the inner store.** -/
theorem CacheServes.keeps (limits : Limits) {r : Except StoreError (List Record)}
    (hA : Immutable A contents) (h : KeepsCached A contents s o)
    (hs : CacheServes A.serve (.getBucket b k) s r s') : KeepsCached A contents s' o ∧
      (b.Canonical → KeyOf objectKey b k → ∀ rs, o k = some rs → r = .ok rs) := by
  obtain ⟨hkeeps, hps⟩ := h
  cases hs with
  | @hit x l l' c m m' ps _ _ rs hfound =>
      refine ⟨⟨hkeeps, inv_replace limits hps (.hit hfound)⟩, fun hb hkey rs' hobject => ?_⟩
      -- the inner store would answer with the same list
      obtain ⟨r, x', hread⟩ := A.reads b k x
      obtain rfl := (A.get hkeeps hread).2 hb hkey rs' hobject
      have hcontents := hA hkeeps hread
      have hp := hps _ (List.mem_append_right _ (List.mem_cons_self ..))
      rw [hp.cache.getCached.2 rs hfound] at hcontents
      exact congrArg Except.ok (Option.some.inj hcontents)
  | consult hread =>
      obtain ⟨hkeeps', hanswer⟩ := A.get hkeeps hread
      exact ⟨⟨hkeeps', inv_replace limits hps (.consult (hA hkeeps hread))⟩, hanswer⟩
  | consult_failed hread =>
      obtain ⟨hkeeps', hanswer⟩ := A.get hkeeps hread
      exact ⟨⟨hkeeps', inv_replace limits hps .consult_failed⟩, hanswer⟩

theorem KeepsCached.quiet (hA : Immutable A contents) (h : KeepsCached A contents s o)
    (hs : Relation.ReflTransGen (QuietCache limits A.serve) s s') :
    KeepsCached A contents s' o := by
  induction hs with
  | refl => exact h
  | tail _ hstep ih =>
      cases hstep with
      | start =>
          exact ⟨ih.1, List.forall_mem_cons.mpr ⟨⟨Memo.Coherent.empty,
            fun _ => (absurd · List.not_mem_nil)⟩, ih.2⟩⟩
      | process hp => exact ⟨ih.1, inv_replace limits ih.2 hp.of_none⟩
      | read hread => exact (hread.keeps limits hA ih).1

theorem KeepsCached.put {g : ℕ} {rs : List Record} {r : Except StoreError String}
    (hA : Immutable A contents) (h : KeepsCached A contents s o) (hb : Good b)
    (hwhole : ∀ y ∈ rs, y.eventTime.Whole)
    (hs : serveCached limits A.serve (.putBucketGeneration b g rs) s r s') :
    ∃ o', KeepsObjects objectKey (.putBucketGeneration b g rs) o r o' ∧
      KeepsCached A contents s' o' := by
  obtain ⟨s₁, hquiet, hs⟩ := hs
  obtain ⟨hkeeps, hps⟩ := h.quiet hA hquiet
  cases hs with
  | putBucketGeneration hput =>
      obtain ⟨o', hobjects, hkeeps'⟩ := A.put hkeeps hb hwhole hput
      have hp := hps _ (List.mem_append_right _ (List.mem_cons_self ..))
      exact ⟨o', hobjects, hkeeps', forall_mem_replace hps ⟨hp.cache, hp.gets⟩⟩

theorem KeepsCached.get {r : Except StoreError (List Record)} (hA : Immutable A contents)
    (h : KeepsCached A contents s o) (hs : serveCached limits A.serve (.getBucket b k) s r s') :
    KeepsCached A contents s' o ∧
      (b.Canonical → KeyOf objectKey b k → ∀ rs, o k = some rs → r = .ok rs) := by
  obtain ⟨s₁, hquiet, hs⟩ := hs
  exact hs.keeps limits hA (h.quiet hA hquiet)

/-- A new process can read. -/
theorem serveCached_reads (b : BucketId) (k : String) (s : Cached A.State) :
    ∃ r s', serveCached limits A.serve (.getBucket b k) s r s' := by
  obtain ⟨x, ps⟩ := s
  have hmissed : Relation.ReflTransGen (QuietCache limits A.serve) ⟨x, ps⟩
      ⟨x, ⟨(Cache.new.getCached b k).2, [⟨b, k, some none, none, none⟩], []⟩ :: ps⟩ :=
    .tail (.tail (.single .start) (.process (l := []) .openGet))
      (.process (l := []) (.miss (l := []) rfl))
  obtain ⟨r, x', hread⟩ := A.reads b k x
  rcases r with e | rs
  · exact ⟨_, _, _, hmissed, .consult_failed (l := []) (m := []) hread⟩
  · exact ⟨_, _, _, hmissed, .consult (l := []) (m := []) hread⟩

variable (limits) in
/-- The caches in front of an archive store. -/
def cachedTier (hA : Immutable A contents) : ArchiveTier Good objectKey where
  State := Cached A.State
  serve := serveCached limits A.serve
  Keeps := KeepsCached A contents
  put := KeepsCached.put hA
  get := KeepsCached.get hA
  reads := serveCached_reads

end ArchiveCache
end Pulpitum
