import Mathlib
import Pulpitum.Support.Memo
import Pulpitum.Support.Runs
import Pulpitum.Ports.Storage

/-!
# Adapters — Archive cache

`ImmutableArchiveCache`: a bounded cache of what an inner archive store returned.  Its calls
interleave at their awaits and at the lock: a lookup, the read of the inner store and the fill are
steps of their own, and so are a write of the inner store and the invalidation after it.

The inner store is known by `contents`: the one record list that it ever returns for a bucket and
a key, if there is one.  It may fail at any time.

* `evict_done`: eviction ends with room for the new entry, or with an empty cache.
* `Accounted`: the bytes in use are those of the entries, and both limits are kept;
  `accounted_of_calls` says so of every sequence of calls.
* `Caching.Inv`: every entry, and every record list that a call has, is the inner store's.
* `transparent`: **the cache is not seen by its callers.**
-/

namespace Pulpitum
namespace ArchiveCache

/-! ### The cache -/

/-- `CacheKey`. -/
@[ext]
structure CacheKey where
  bucket : BucketId
  objectKey : String
deriving DecidableEq

/-- `CacheEntry`. -/
structure CacheEntry where
  records : List Record
  estimatedBytes : ℕ
  lastAccess : ℕ
deriving DecidableEq

/-- `CacheState`. -/
structure CacheState where
  entries : AList fun _ : CacheKey => CacheEntry
  usedBytes : ℕ

/-- The limits of a cache, with the size of a `Record` that the compiler chose. -/
structure Limits where
  maxBytes : ℕ
  maxEntries : ℕ
  recordSize : ℕ

/-- The cache: its entries behind the lock, and the atomic counter of accesses. -/
structure Cache where
  state : CacheState
  nextAccess : ℕ

/-- `ImmutableArchiveCache::new`. -/
def Cache.new : Cache := ⟨⟨∅, 0⟩, 0⟩

/-- `usize::saturating_add`. -/
def saturatingAdd (a b : ℕ) : ℕ := min (a + b) (2 ^ 64 - 1)

/-- `estimated_records_size`. -/
def estimatedRecordsSize (limits : Limits) (records : List Record) : ℕ :=
  records.foldl (fun size record =>
    saturatingAdd (saturatingAdd (saturatingAdd (saturatingAdd size limits.recordSize)
      record.partitionKey.length) record.sortKey.length) record.value.length) 0

/-- `remove_entry`. -/
def removeEntry (key : CacheKey) (s : CacheState) : CacheState :=
  match s.entries.lookup key with
  | some entry => ⟨s.entries.erase key, s.usedBytes - entry.estimatedBytes⟩
  | none => s

/-- The condition of the eviction loop. -/
def full (limits : Limits) (estimatedBytes : ℕ) (s : CacheState) : Prop :=
  limits.maxEntries ≤ Memo.size s.entries ∨
    limits.maxBytes < saturatingAdd s.usedBytes estimatedBytes

instance (limits : Limits) (n : ℕ) : DecidablePred (full limits n) := fun s => by
  unfold full; infer_instance

/-- At most `fuel` rounds of the eviction loop. -/
def evict (limits : Limits) (estimatedBytes : ℕ) : ℕ → CacheState → CacheState
  | 0, s => s
  | fuel + 1, s =>
      if full limits estimatedBytes s then
        match Memo.oldest CacheEntry.lastAccess s.entries with
        | none => s
        | some key => evict limits estimatedBytes fuel (removeEntry key s)
      else s

namespace Cache

/-- `fetch_add` on the access counter. -/
def tick (c : Cache) : ℕ × Cache :=
  (c.nextAccess, { c with nextAccess := (c.nextAccess + 1) % 2 ^ 64 })

/-- `get_cached`. -/
def getCached (bucket : BucketId) (objectKey : String) (c : Cache) : Option (List Record) × Cache :=
  let (access, c) := c.tick
  match c.state.entries.lookup ⟨bucket, objectKey⟩ with
  | none => (none, c)
  | some entry =>
      (some entry.records,
        { c with
          state := { c.state with
            entries := c.state.entries.insert ⟨bucket, objectKey⟩
              { entry with lastAccess := access } } })

/-- `cache`. -/
def cache (limits : Limits) (bucket : BucketId) (objectKey : String) (records : List Record)
    (c : Cache) : Cache :=
  if limits.maxBytes = 0 ∨ limits.maxEntries = 0 then c
  else
    let estimatedBytes := estimatedRecordsSize limits records
    if limits.maxBytes < estimatedBytes then c
    else
      let (access, c) := c.tick
      let state := removeEntry ⟨bucket, objectKey⟩ c.state
      let state := evict limits estimatedBytes (Memo.size state.entries) state
      { c with
        state :=
          { entries := state.entries.insert ⟨bucket, objectKey⟩ ⟨records, estimatedBytes, access⟩
            usedBytes := saturatingAdd state.usedBytes estimatedBytes } }

/-- `invalidate`. -/
def invalidate (bucket : BucketId) (objectKey : String) (c : Cache) : Cache :=
  { c with state := removeEntry ⟨bucket, objectKey⟩ c.state }

end Cache

/-! ### Eviction -/

theorem removeEntry_of_mem {key : CacheKey} {s : CacheState} (h : key ∈ s.entries) :
    Memo.size (removeEntry key s).entries + 1 = Memo.size s.entries := by
  unfold removeEntry
  split
  · exact Memo.size_erase_of_mem h
  · rename_i hn
    exact absurd h (AList.lookup_eq_none.mp hn)

/-- **The eviction loop ends** with room for the new entry, or with an empty cache. -/
theorem evict_done (limits : Limits) (n : ℕ) : ∀ (fuel : ℕ) (s : CacheState),
    Memo.size s.entries ≤ fuel → ¬ full limits n (evict limits n fuel s) ∨
      Memo.size (evict limits n fuel s).entries = 0 := by
  intro fuel
  induction fuel with
  | zero => exact fun s hs => .inr (Nat.le_zero.mp hs)
  | succ fuel ih =>
      intro s hs
      unfold evict
      split
      · split
        · rename_i hnone
          exact .inr (Memo.size_of_oldest_eq_none hnone)
        · rename_i key hold
          have hsize := removeEntry_of_mem (Memo.mem_of_oldest hold)
          exact ih _ (by omega)
      · rename_i hfull
        exact .inl hfull

/-- Rounds beyond the number of entries change nothing. -/
theorem evict_of_size_le (limits : Limits) (n : ℕ) : ∀ (fuel : ℕ) (s : CacheState),
    Memo.size s.entries ≤ fuel →
      evict limits n fuel s = evict limits n (Memo.size s.entries) s := by
  intro fuel
  induction fuel with
  | zero =>
      intro s hs
      rw [Nat.le_zero.mp hs]
  | succ fuel ih =>
      intro s hs
      cases hold : Memo.oldest CacheEntry.lastAccess s.entries with
      | none =>
          rw [Memo.size_of_oldest_eq_none hold]
          simp [evict, hold]
      | some key =>
          have hsize := removeEntry_of_mem (Memo.mem_of_oldest hold)
          rw [← hsize]
          simp only [evict, hold]
          rw [ih _ (by omega)]

/-! ### Accounting -/

/-- The bytes in use are those of the entries, and both limits are kept. -/
structure Accounted (limits : Limits) (s : CacheState) : Prop where
  used : s.usedBytes = Memo.weight CacheEntry.estimatedBytes s.entries
  bytes : s.usedBytes ≤ limits.maxBytes
  entries : Memo.size s.entries ≤ limits.maxEntries

/-- A saturating sum below a limit that is not the greatest number did not saturate. -/
theorem saturatingAdd_of_le {a b m : ℕ} (hm : m < 2 ^ 64 - 1) (h : saturatingAdd a b ≤ m) :
    saturatingAdd a b = a + b := by
  unfold saturatingAdd at h ⊢
  omega

theorem lookup_removeEntry_self {key : CacheKey} {s : CacheState} :
    (removeEntry key s).entries.lookup key = none := by
  unfold removeEntry
  split
  · exact AList.lookup_erase key s.entries
  · assumption

theorem lookup_removeEntry_of_eq_none {key key' : CacheKey} {s : CacheState}
    (h : s.entries.lookup key = none) : (removeEntry key' s).entries.lookup key = none := by
  by_cases hk : key = key'
  · rw [hk]
    exact lookup_removeEntry_self
  · unfold removeEntry
    split
    · exact (AList.lookup_erase_ne hk).trans h
    · exact h

theorem lookup_evict_of_eq_none {limits : Limits} {n fuel : ℕ} {key : CacheKey} :
    ∀ {s : CacheState}, s.entries.lookup key = none →
      (evict limits n fuel s).entries.lookup key = none := by
  induction fuel with
  | zero => exact id
  | succ fuel ih =>
      intro s h
      unfold evict
      split
      · split
        · exact h
        · exact ih (lookup_removeEntry_of_eq_none h)
      · exact h

namespace Accounted

variable {limits : Limits} {s : CacheState} {c : Cache} {b : BucketId} {k : String}

theorem new : Accounted limits Cache.new.state := ⟨rfl, Nat.zero_le _, Nat.zero_le _⟩

theorem removeEntry {key : CacheKey} (h : Accounted limits s) :
    Accounted limits (removeEntry key s) := by
  unfold ArchiveCache.removeEntry
  split
  · rename_i entry hl
    have hw := Memo.weight_erase (w := CacheEntry.estimatedBytes) hl
    refine ⟨?_, (Nat.sub_le _ _).trans h.bytes, Memo.size_erase_le.trans h.entries⟩
    rw [h.used, ← hw, Nat.add_sub_cancel]
  · exact h

theorem evict {n fuel : ℕ} : ∀ {s : CacheState}, Accounted limits s →
    Accounted limits (evict limits n fuel s) := by
  induction fuel with
  | zero => exact id
  | succ fuel ih =>
      intro s h
      unfold ArchiveCache.evict
      split
      · split
        · exact h
        · exact ih h.removeEntry
      · exact h

/-- An object that is not too large finds room: an empty cache has it. -/
theorem not_full {n : ℕ} (h : Accounted limits s) (hentries : limits.maxEntries ≠ 0)
    (hn : n ≤ limits.maxBytes) {fuel : ℕ} (hf : Memo.size s.entries ≤ fuel) :
    ¬ full limits n (ArchiveCache.evict limits n fuel s) := by
  rcases evict_done limits n fuel s hf with hroom | hempty
  · exact hroom
  · have hused : (ArchiveCache.evict limits n fuel s).usedBytes = 0 :=
      h.evict.used.trans (Memo.weight_of_size_eq_zero hempty)
    unfold full saturatingAdd
    rw [hempty, hused]
    omega

theorem getCached (h : Accounted limits c.state) : Accounted limits (c.getCached b k).2.state := by
  unfold Cache.getCached
  dsimp only [Cache.tick]
  split
  · exact h
  · rename_i entry hl
    have hmem : ⟨b, k⟩ ∈ c.state.entries := AList.lookup_isSome.mp (by simp [hl])
    have hw := Memo.weight_erase (w := CacheEntry.estimatedBytes) hl
    refine ⟨?_, h.bytes, ?_⟩
    · rw [Memo.weight_insert]
      exact h.used.trans (hw.symm.trans (Nat.add_comm _ _))
    · exact (Memo.size_insert_of_mem hmem).le.trans h.entries

/-- **A fill keeps both limits**: its entry comes after the eviction has made room for it, and its
key has no other entry. -/
theorem cache {records : List Record} (hb : limits.maxBytes < 2 ^ 64 - 1)
    (h : Accounted limits c.state) : Accounted limits (c.cache limits b k records).state := by
  unfold Cache.cache
  split
  · exact h
  · rename_i hlimits
    dsimp only [Cache.tick]
    split
    · exact h
    · rename_i hsize
      have hremoved : Accounted limits (ArchiveCache.removeEntry ⟨b, k⟩ c.state) := h.removeEntry
      have hroom := hremoved.not_full (fun h0 => hlimits (.inr h0)) (Nat.not_lt.mp hsize) le_rfl
      obtain ⟨hcount, hbytes⟩ := not_or.mp hroom
      have hsum := saturatingAdd_of_le hb (Nat.not_lt.mp hbytes)
      refine ⟨?_, Nat.not_lt.mp hbytes, Memo.size_insert_le.trans (Nat.not_le.mp hcount)⟩
      rw [hsum, Memo.weight_insert, Memo.erase_of_lookup_eq_none
        (lookup_evict_of_eq_none lookup_removeEntry_self), hremoved.evict.used, Nat.add_comm]

theorem invalidate (h : Accounted limits c.state) : Accounted limits (c.invalidate b k).state :=
  h.removeEntry

end Accounted

/-- A call on the cache. -/
inductive Call where
  | getCached (bucket : BucketId) (objectKey : String)
  | cache (bucket : BucketId) (objectKey : String) (records : List Record)
  | invalidate (bucket : BucketId) (objectKey : String)

/-- The cache after a call. -/
def Cache.call (limits : Limits) (c : Cache) : Call → Cache
  | .getCached b k => (c.getCached b k).2
  | .cache b k records => c.cache limits b k records
  | .invalidate b k => c.invalidate b k

/-- The cache after a sequence of calls. -/
def Cache.calls (limits : Limits) (calls : List Call) (c : Cache) : Cache :=
  calls.foldl (Cache.call limits) c

section Calls

variable {limits : Limits}

theorem Accounted.call (hb : limits.maxBytes < 2 ^ 64 - 1) {c : Cache}
    (h : Accounted limits c.state) (call : Call) : Accounted limits (c.call limits call).state := by
  cases call with
  | getCached b k => exact h.getCached
  | cache b k records => exact h.cache hb
  | invalidate b k => exact h.invalidate

theorem Accounted.calls (hb : limits.maxBytes < 2 ^ 64 - 1) (calls : List Call) :
    ∀ {c : Cache}, Accounted limits c.state → Accounted limits (c.calls limits calls).state := by
  induction calls with
  | nil => exact id
  | cons call calls ih => exact fun h => ih (h.call hb call)

/-- A limit of zero lets nothing in. -/
theorem entries_call_of_zero (h0 : limits.maxBytes = 0 ∨ limits.maxEntries = 0) {c : Cache}
    (h : c.state.entries = ∅) (call : Call) : (c.call limits call).state.entries = ∅ := by
  cases call with
  | getCached b k => simp [Cache.call, Cache.getCached, Cache.tick, h]
  | cache b k records => simp [Cache.call, Cache.cache, h0, h]
  | invalidate b k => simp [Cache.call, Cache.invalidate, removeEntry, h]

theorem entries_calls_of_zero (h0 : limits.maxBytes = 0 ∨ limits.maxEntries = 0)
    (calls : List Call) : ∀ {c : Cache}, c.state.entries = ∅ →
      (c.calls limits calls).state.entries = ∅ := by
  induction calls with
  | nil => exact id
  | cons call calls ih => exact fun h => ih (entries_call_of_zero h0 h call)

/-- **The cache stays within its limits, and its account is exact**, after every sequence of calls
from a new cache.  The bytes in use are the sum over the entries, neither limit is passed, and with
a limit of zero nothing is stored.  Whatever is cached next, the eviction loop leaves after at most
as many rounds as there are entries, and leaves because there is room. -/
theorem accounted_of_calls (hb : limits.maxBytes < 2 ^ 64 - 1) (calls : List Call) :
    (Cache.new.calls limits calls).state.usedBytes =
        Memo.weight CacheEntry.estimatedBytes (Cache.new.calls limits calls).state.entries ∧
      (Cache.new.calls limits calls).state.usedBytes ≤ limits.maxBytes ∧
      Memo.size (Cache.new.calls limits calls).state.entries ≤ limits.maxEntries ∧
      (limits.maxBytes = 0 ∨ limits.maxEntries = 0 →
        (Cache.new.calls limits calls).state.entries = ∅) ∧
      ∀ (key : CacheKey) (records : List Record), limits.maxEntries ≠ 0 →
        estimatedRecordsSize limits records ≤ limits.maxBytes →
        let s := removeEntry key (Cache.new.calls limits calls).state
        let n := estimatedRecordsSize limits records
        ∀ fuel, Memo.size s.entries ≤ fuel →
          evict limits n fuel s = evict limits n (Memo.size s.entries) s ∧
            ¬ full limits n (evict limits n fuel s) := by
  have h : Accounted limits (Cache.new.calls limits calls).state := .calls hb calls .new
  refine ⟨h.used, h.bytes, h.entries, fun h0 => entries_calls_of_zero h0 calls rfl, ?_⟩
  intro key records hentries hsize s n fuel hf
  exact ⟨evict_of_size_le limits n fuel s hf, h.removeEntry.not_full hentries hsize hf⟩

end Calls

/-- A cache of at most two objects, filled with three. -/
def Sample.overfilled : Cache :=
  Cache.new.calls ⟨300, 2, 88⟩
    (["a", "b", "c"].map fun k => .cache Pulpitum.Sample.bucket k [Pulpitum.Sample.record])

/-- The oldest of the three is evicted. -/
theorem accounted_of_overfilled :
    Sample.overfilled.state.usedBytes = 182 ∧
      Sample.overfilled.state.usedBytes =
        Memo.weight CacheEntry.estimatedBytes Sample.overfilled.state.entries ∧
      Memo.size Sample.overfilled.state.entries ≤ 2 :=
  have h := @accounted_of_calls ⟨300, 2, 88⟩ (by decide)
    (["a", "b", "c"].map fun k => .cache Pulpitum.Sample.bucket k [Pulpitum.Sample.record])
  ⟨by rfl, h.1, h.2.2.1⟩

/-! ### Coherence -/

variable {contents : BucketId → String → Option (List Record)}

/-- Every entry holds the inner store's record list for its bucket and key. -/
abbrev Coherent (contents : BucketId → String → Option (List Record)) (s : CacheState) : Prop :=
  Memo.Coherent (fun key : CacheKey => contents key.bucket key.objectKey) CacheEntry.records
    s.entries

namespace Coherent

variable {s : CacheState} {c : Cache} {b : BucketId} {k : String} {records : List Record}
  {limits : Limits}

theorem removeEntry {key : CacheKey} (h : Coherent contents s) :
    Coherent contents (removeEntry key s) := by
  unfold ArchiveCache.removeEntry
  split
  · exact Memo.Coherent.erase h
  · exact h

theorem evict {n fuel : ℕ} : ∀ {s : CacheState}, Coherent contents s →
    Coherent contents (evict limits n fuel s) := by
  induction fuel with
  | zero => exact id
  | succ fuel ih =>
      intro s h
      unfold ArchiveCache.evict
      split
      · split
        · exact h
        · exact ih h.removeEntry
      · exact h

theorem getCached (h : Coherent contents c.state) :
    Coherent contents (c.getCached b k).2.state ∧
      ∀ rs, (c.getCached b k).1 = some rs → contents b k = some rs := by
  unfold Cache.getCached
  dsimp only [Cache.tick]
  split
  · exact ⟨h, fun _ hrs => nomatch hrs⟩
  · rename_i entry hl
    have hentry := h _ _ hl
    refine ⟨Memo.Coherent.insert h hentry, fun rs hrs => ?_⟩
    rw [← Option.some.inj hrs]
    exact hentry

theorem cache (h : Coherent contents c.state) (hrs : contents b k = some records) :
    Coherent contents (c.cache limits b k records).state := by
  unfold Cache.cache
  split
  · exact h
  · dsimp only [Cache.tick]
    split
    · exact h
    · exact Memo.Coherent.insert (Coherent.evict (Coherent.removeEntry h)) hrs

theorem invalidate (h : Coherent contents c.state) :
    Coherent contents (c.invalidate b k).state :=
  Coherent.removeEntry h

end Coherent

/-! ### Calls -/

/-- A call of `get_bucket`: what its lookup found, what the inner store answered it, and what it
returned, as far as it has come. -/
structure Get where
  bucket : BucketId
  objectKey : String
  looked : Option (Option (List Record))
  consulted : Option (Except StoreError (List Record))
  returned : Option (Except StoreError (List Record))

/-- A call of `put_bucket` or `put_bucket_generation`: what the inner store answered it, and
whether it returned. -/
structure Put where
  request : ArchiveRequest
  bucket : BucketId
  stored : Option (Except StoreError String)
  returned : Bool

/-- The bucket a write is for. -/
def putBucket? : ArchiveRequest → Option BucketId
  | .putBucket b _ | .putBucketGeneration b _ _ => some b
  | .getBucket .. => none

/-- The cache with the calls on it. -/
structure Caching where
  cache : Cache
  gets : List Get
  puts : List Put

namespace Caching

/-- A new cache, and no call on it. -/
def init : Caching := ⟨.new, [], []⟩

/-- One step of one call. -/
inductive Step (limits : Limits) (contents : BucketId → String → Option (List Record)) :
    Caching → Caching → Prop where
  | openGet {c gs ps b k} : Step limits contents ⟨c, gs, ps⟩ ⟨c, ⟨b, k, none, none, none⟩ :: gs, ps⟩
  /-- The lookup finds an entry, and the call returns it. -/
  | hit {c l l' ps b k rs} (h : (c.getCached b k).1 = some rs) :
      Step limits contents ⟨c, l ++ ⟨b, k, none, none, none⟩ :: l', ps⟩
        ⟨(c.getCached b k).2, l ++ ⟨b, k, some (some rs), none, some (.ok rs)⟩ :: l', ps⟩
  | miss {c l l' ps b k} (h : (c.getCached b k).1 = none) :
      Step limits contents ⟨c, l ++ ⟨b, k, none, none, none⟩ :: l', ps⟩
        ⟨(c.getCached b k).2, l ++ ⟨b, k, some none, none, none⟩ :: l', ps⟩
  /-- The inner store returns its record list. -/
  | consult {c l l' ps b k rs} (h : contents b k = some rs) :
      Step limits contents ⟨c, l ++ ⟨b, k, some none, none, none⟩ :: l', ps⟩
        ⟨c, l ++ ⟨b, k, some none, some (.ok rs), none⟩ :: l', ps⟩
  /-- The inner store fails, and so does the call. -/
  | consult_failed {c l l' ps b k e} :
      Step limits contents ⟨c, l ++ ⟨b, k, some none, none, none⟩ :: l', ps⟩
        ⟨c, l ++ ⟨b, k, some none, some (.error e), some (.error e)⟩ :: l', ps⟩
  | fill {c l l' ps b k rs} :
      Step limits contents ⟨c, l ++ ⟨b, k, some none, some (.ok rs), none⟩ :: l', ps⟩
        ⟨c.cache limits b k rs, l ++ ⟨b, k, some none, some (.ok rs), some (.ok rs)⟩ :: l', ps⟩
  /-- The call's future is dropped. -/
  | dropGet {c l l' ps g} : Step limits contents ⟨c, l ++ g :: l', ps⟩ ⟨c, l ++ l', ps⟩
  | openPut {c gs ps q b} (h : putBucket? q = some b) :
      Step limits contents ⟨c, gs, ps⟩ ⟨c, gs, ⟨q, b, none, false⟩ :: ps⟩
  | put {c gs l l' q b key} :
      Step limits contents ⟨c, gs, l ++ ⟨q, b, none, false⟩ :: l'⟩
        ⟨c, gs, l ++ ⟨q, b, some (.ok key), false⟩ :: l'⟩
  | put_failed {c gs l l' q b e} :
      Step limits contents ⟨c, gs, l ++ ⟨q, b, none, false⟩ :: l'⟩
        ⟨c, gs, l ++ ⟨q, b, some (.error e), true⟩ :: l'⟩
  | invalidate {c gs l l' q b key} :
      Step limits contents ⟨c, gs, l ++ ⟨q, b, some (.ok key), false⟩ :: l'⟩
        ⟨c.invalidate b key, gs, l ++ ⟨q, b, some (.ok key), true⟩ :: l'⟩
  | dropPut {c gs l l' p} : Step limits contents ⟨c, gs, l ++ p :: l'⟩ ⟨c, gs, l ++ l'⟩

/-- The states that calls reach from a new cache. -/
abbrev Reaches (limits : Limits) (contents : BucketId → String → Option (List Record)) :
    Caching → Prop :=
  Relation.ReflTransGen (Step limits contents) init

end Caching

/-- What holds of a call of `get_bucket` wherever it is: the record lists it has are the inner
store's, and without an entry it returns what the inner store answered it. -/
structure Get.Sound (contents : BucketId → String → Option (List Record)) (g : Get) : Prop where
  consulted : ∀ rs, g.consulted = some (.ok rs) → contents g.bucket g.objectKey = some rs
  returned : ∀ rs, g.returned = some (.ok rs) → contents g.bucket g.objectKey = some rs
  missed : ∀ r, g.looked = some none → g.returned = some r → g.consulted = some r

/-- The entries and the calls are sound. -/
structure Caching.Inv (contents : BucketId → String → Option (List Record)) (s : Caching) :
    Prop where
  cache : Coherent contents s.cache.state
  gets : ∀ g ∈ s.gets, g.Sound contents

/-- **One step keeps them sound.** -/
theorem Caching.Inv.step {limits : Limits} {s s' : Caching} (h : Inv contents s)
    (hs : Step limits contents s s') : Inv contents s' := by
  obtain ⟨hc, hg⟩ := h
  cases hs with
  | openGet =>
      exact ⟨hc, List.forall_mem_cons.mpr ⟨⟨fun _ => (nomatch ·), fun _ => (nomatch ·),
        fun _ => (nomatch ·)⟩, hg⟩⟩
  | @hit c l l' ps b k rs hfound =>
      obtain ⟨hc', hlist⟩ := hc.getCached (b := b) (k := k)
      refine ⟨hc', forall_mem_replace hg ⟨fun _ => (nomatch ·), fun rs' hr => ?_,
        fun _ => (nomatch ·)⟩⟩
      cases hr
      exact hlist rs hfound
  | @miss c l l' ps b k hnone =>
      exact ⟨(hc.getCached (b := b) (k := k)).1, forall_mem_replace hg ⟨fun _ => (nomatch ·),
        fun _ => (nomatch ·), fun _ _ => (nomatch ·)⟩⟩
  | @consult c l l' ps b k rs hrs =>
      refine ⟨hc, forall_mem_replace hg ⟨fun rs' hr => ?_, fun _ => (nomatch ·),
        fun _ _ => (nomatch ·)⟩⟩
      cases hr
      exact hrs
  | consult_failed =>
      refine ⟨hc, forall_mem_replace hg ⟨fun _ hr => ?_, fun _ hr => ?_, fun r _ hr => hr⟩⟩
      · cases hr
      · cases hr
  | @fill c l l' ps b k rs =>
      have hcall := hg ⟨b, k, some none, some (.ok rs), none⟩
        (List.mem_append_right _ (List.mem_cons_self ..))
      have hrs : contents b k = some rs := hcall.consulted rs rfl
      exact ⟨hc.cache hrs, forall_mem_replace hg ⟨hcall.consulted, hcall.consulted,
        fun r _ hr => hr⟩⟩
  | dropGet => exact ⟨hc, forall_mem_remove hg⟩
  | openPut | put | put_failed | dropPut => exact ⟨hc, hg⟩
  | invalidate => exact ⟨hc.invalidate, hg⟩

theorem Caching.Inv.of_reaches {limits : Limits} {s : Caching}
    (h : Caching.Reaches limits contents s) : Inv contents s := by
  induction h with
  | refl => exact ⟨Memo.Coherent.empty, fun _ => (absurd · List.not_mem_nil)⟩
  | tail _ hs ih => exact ih.step hs

/-- Calls that interleave act on the cache one after the other: the lock is held in each. -/
theorem Caching.exists_calls {limits : Limits} {s : Caching}
    (h : Caching.Reaches limits contents s) : ∃ calls, s.cache = Cache.new.calls limits calls := by
  induction h with
  | refl => exact ⟨[], rfl⟩
  | tail _ hs ih =>
      obtain ⟨calls, hcalls⟩ := ih
      have snoc : ∀ {c : Cache} (call : Call), c = Cache.new.calls limits calls →
          c.call limits call = Cache.new.calls limits (calls ++ [call]) := by
        intro c call hc
        rw [Cache.calls, List.foldl_concat, hc]
        rfl
      cases hs with
      | @hit c l l' ps b k rs _ => exact ⟨_, snoc (.getCached b k) hcalls⟩
      | @miss c l l' ps b k _ => exact ⟨_, snoc (.getCached b k) hcalls⟩
      | @fill c l l' ps b k rs => exact ⟨_, snoc (.cache b k rs) hcalls⟩
      | @invalidate c gs l l' q b key => exact ⟨_, snoc (.invalidate b key) hcalls⟩
      | _ => exact ⟨calls, hcalls⟩

/-- So the account is exact in every state that they reach. -/
theorem Caching.accounted {limits : Limits} (hb : limits.maxBytes < 2 ^ 64 - 1) {s : Caching}
    (h : Caching.Reaches limits contents s) : Accounted limits s.cache.state := by
  obtain ⟨calls, hcalls⟩ := Caching.exists_calls h
  rw [hcalls]
  exact .calls hb calls .new

/-- **The cache is transparent**, for every inner store that returns at most one record list for a
bucket and a key, in every state that concurrent calls reach.  What a `get_bucket` returns is the
inner store's list for exactly its bucket and key; a call that finds no entry returns what the
inner store answered it; and every entry is a list that the inner store returned. -/
theorem transparent {limits : Limits} {s : Caching} (h : Caching.Reaches limits contents s) :
    (∀ g ∈ s.gets, (∀ rs, g.returned = some (.ok rs) → contents g.bucket g.objectKey = some rs) ∧
      ∀ r, g.looked = some none → g.returned = some r → g.consulted = some r) ∧
      ∀ key entry, s.cache.state.entries.lookup key = some entry →
        contents key.bucket key.objectKey = some entry.records :=
  have hinv := Caching.Inv.of_reaches h
  ⟨fun g hg => ⟨(hinv.gets g hg).returned, (hinv.gets g hg).missed⟩, hinv.cache⟩

namespace Sample

/-- A cache with room for ten objects. -/
def limits : Limits := ⟨1000, 10, 88⟩

/-- An inner store with one object. -/
def inner (b : BucketId) (k : String) : Option (List Record) :=
  if b = Pulpitum.Sample.bucket ∧ k = "key" then some [Pulpitum.Sample.record] else none

/-- The cache after the first of two reads of the object. -/
def filled : Cache :=
  ((Cache.new.getCached Pulpitum.Sample.bucket "key").2).cache limits Pulpitum.Sample.bucket "key"
    [Pulpitum.Sample.record]

/-- Two reads of the object, the first from the inner store and the second from the cache. -/
def readTwice : Caching where
  cache := (filled.getCached Pulpitum.Sample.bucket "key").2
  gets :=
    [⟨Pulpitum.Sample.bucket, "key", some (some [Pulpitum.Sample.record]), none,
        some (.ok [Pulpitum.Sample.record])⟩,
      ⟨Pulpitum.Sample.bucket, "key", some none, some (.ok [Pulpitum.Sample.record]),
        some (.ok [Pulpitum.Sample.record])⟩]
  puts := []

theorem reaches_readTwice : Caching.Reaches limits inner readTwice :=
  .tail (.tail (.tail (.tail (.tail (.tail .refl .openGet) (.miss (l := []) rfl))
    (.consult (l := []) rfl)) (.fill (l := []))) .openGet) (.hit (l := []) rfl)

end Sample

/-- An object read twice, the second time from the cache. -/
theorem transparent_of_readTwice :
    (∀ g ∈ Sample.readTwice.gets,
      (∀ rs, g.returned = some (.ok rs) → Sample.inner g.bucket g.objectKey = some rs) ∧
        ∀ r, g.looked = some none → g.returned = some r → g.consulted = some r) ∧
      ∀ key entry, Sample.readTwice.cache.state.entries.lookup key = some entry →
        Sample.inner key.bucket key.objectKey = some entry.records :=
  transparent Sample.reaches_readTwice

end ArchiveCache
end Pulpitum
