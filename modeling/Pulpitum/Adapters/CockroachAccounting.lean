import Mathlib
import Pulpitum.Support.Tally
import Pulpitum.Adapters.CockroachPool

/-!
# Adapters — Cockroach accounting

The counters of `PoolState`.  A task that is under way in `acquire` or in a drop, `prewarm`, and a
connection that is being closed have each changed some counters and not yet the others; what each
has yet to settle is its due.  Three kinds of steps leave a due behind that nobody settles: the
future of `acquire` is dropped while it waits or while it connects, and `prewarm` stores `IDLE`
into a client that has been closed (`Leak`).

* `Balanced`: the counters are the sum of all dues and of what was left behind.
* `at_rest_iff`: **at rest the counters are exact if and only if nothing was left behind** and
  nobody has yet to settle anything.
-/

namespace Pulpitum
namespace CockroachPool

/-! ### Dues -/

/-- The counters of the pool. -/
inductive Counter where
  | idle
  | inUse
  | opened
  | waiters
deriving DecidableEq

/-- The value of each counter. -/
def PoolState.value (s : PoolState) : Counter → UInt64
  | .idle => s.idle
  | .inUse => s.inUse
  | .opened => s.opened
  | .waiters => s.waiters

/-- One, on one counter. -/
def one (k : Counter) : Counter → UInt64 := fun k' => if k' = k then 1 else 0

/-- What a client is counted for, by its state. -/
def ClientState.due : ClientState → Counter → UInt64
  | checkedOut => one .opened
  | idle => one .opened + one .idle
  | closed => 0

/-- What `close_connection` has yet to subtract. -/
def Driver.due : Driver → Counter → UInt64
  | swapped previous => previous.due
  | uncounted => one .idle
  | _ => 0

/-- What a client and its driver are counted for. -/
def PooledClient.due (client : PooledClient) : Counter → UInt64 :=
  client.state.due + client.driver.due

/-- What a task has added and will subtract, or will add. -/
def Checkout.due : Checkout → Counter → UInt64
  | waiting | expired | granted => one .waiters
  | looking | popping | popped _ | testing _ | discarding _ | connecting | refused | holding .. =>
      one .inUse
  | taken _ => one .inUse + one .idle
  | discarded => one .inUse + one .opened
  | registering _ => one .inUse - one .opened
  | idled _ => - one .idle
  | closedOut => one .opened
  | outside | admitted | returning .. | pushing _ | releasing => 0

/-- What `prewarm` will add. -/
def Prewarm.due : Prewarm → Counter → UInt64
  | registering .. => - one .opened
  | counting .. => - one .idle
  | _ => 0

/-- A step that leaves a due behind. -/
inductive Leak where
  /-- The future of `acquire` is dropped while it waits for a permit. -/
  | wait
  /-- The future of `acquire` is dropped while it connects. -/
  | connect
  /-- `prewarm` stores `IDLE` into a closed client. -/
  | revival
deriving DecidableEq

/-- What is left behind. -/
def Leak.due : Leak → Counter → UInt64
  | wait => one .waiters
  | connect => one .inUse
  | revival => - one .opened

/-- What a step of a task leaves behind. -/
def Checkout.leak : Checkout → Event → Option Leak
  | waiting, .cancelled => some .wait
  | connecting, .cancelled => some .connect
  | _, _ => none

/-- What a step of `prewarm` leaves behind. -/
def Prewarm.leak (p : PoolInner) : Prewarm → Option Leak
  | storing _ c => if p.stateOf c = .closed then some .revival else none
  | _ => none

/-- The counters of the pool, less what its clients are counted for. -/
def PoolInner.gap (p : PoolInner) : Counter → UInt64 :=
  p.state.value - Tally.upTo PooledClient.due p.clients p.created

namespace PoolInner

variable {p : PoolInner} {c : ClientId} {f : PoolState → PoolState}

/-- A change of the counters only. -/
theorem gap_count {d : Counter → UInt64} (h : (f p.state).value = p.state.value + d) :
    (p.count f).gap = p.gap + d := by
  have hgap : (p.count f).gap =
      (f p.state).value - Tally.upTo PooledClient.due p.clients p.created :=
    rfl
  rw [hgap, h, gap]
  abel

/-- A change of a client only. -/
theorem gap_modify {g : PooledClient → PooledClient} {d : Counter → UInt64} (hc : c < p.created)
    (h : (g (p.clients c)).due + d = (p.clients c).due) : (p.modify c g).gap = p.gap + d := by
  have hgap : (p.modify c g).gap = p.state.value -
      Tally.upTo PooledClient.due (Function.update p.clients c (g (p.clients c))) p.created := rfl
  rw [hgap, Tally.upTo_update hc, ← h, gap]
  abel

theorem gap_create : p.create.gap = p.gap - one .opened := by
  have hgap : p.create.gap = p.state.value - Tally.upTo PooledClient.due
      (Function.update p.clients p.created ⟨.checkedOut, false, .none⟩) (p.created + 1) := rfl
  have hdue : PooledClient.due ⟨.checkedOut, false, .none⟩ = one .opened := add_zero _
  rw [hgap, Tally.upTo_succ, hdue, gap]
  abel

end PoolInner

/-- `fetch_add(1)` on a counter. -/
def PoolState.add (s : PoolState) : Counter → PoolState
  | .idle => { s with idle := s.idle + 1 }
  | .inUse => { s with inUse := s.inUse + 1 }
  | .opened => { s with opened := s.opened + 1 }
  | .waiters => { s with waiters := s.waiters + 1 }

/-- `fetch_sub(1)` on a counter. -/
def PoolState.sub (s : PoolState) : Counter → PoolState
  | .idle => { s with idle := s.idle - 1 }
  | .inUse => { s with inUse := s.inUse - 1 }
  | .opened => { s with opened := s.opened - 1 }
  | .waiters => { s with waiters := s.waiters - 1 }

theorem PoolState.value_add (s : PoolState) (k : Counter) : (s.add k).value = s.value + one k := by
  funext k'
  cases k <;> cases k' <;> simp [add, value, one]

theorem PoolState.value_sub (s : PoolState) (k : Counter) : (s.sub k).value = s.value - one k := by
  funext k'
  cases k <;> cases k' <;> simp [sub, value, one]

/-! ### What a step settles -/

namespace PoolInner

variable {p : PoolInner} {c : ClientId} {f : PoolState → PoolState} {d d' : Counter → UInt64}

/-- A party counts up and owes one more. -/
theorem settle_add (k : Counter) (hf : f p.state = p.state.add k) (hd : d + one k = d') :
    (p.count f).gap + d = p.gap + d' := by
  rw [gap_count (hf ▸ p.state.value_add k), ← hd]
  abel

/-- A party counts down and owes one less. -/
theorem settle_sub (k : Counter) (hf : f p.state = p.state.sub k) (hd : d' + one k = d) :
    (p.count f).gap + d = p.gap + d' := by
  have hvalue : (f p.state).value = p.state.value + - one k := by
    rw [hf, p.state.value_sub k, sub_eq_add_neg]
  rw [gap_count hvalue, ← hd]
  abel

/-- A party changes a client, and owes what that is counted for less. -/
theorem settle_modify {g : PooledClient → PooledClient} (hc : c < p.created)
    (hd : (p.clients c).due + d = (g (p.clients c)).due + d') :
    (p.modify c g).gap + d = p.gap + d' := by
  have hgap : (p.modify c g).gap = p.gap + ((p.clients c).due - (g (p.clients c)).due) :=
    gap_modify hc (by abel)
  have hd' : d' = (p.clients c).due + d - (g (p.clients c)).due := by
    rw [hd]
    abel
  rw [hgap, hd']
  abel

theorem settle_setState {s : ClientState} (hc : c < p.created)
    (hd : (p.stateOf c).due + d = s.due + d') : (p.setState c s).gap + d = p.gap + d' := by
  refine settle_modify hc ?_
  have hold : (p.clients c).due = (p.stateOf c).due + (p.clients c).driver.due := rfl
  have hnew : PooledClient.due { p.clients c with state := s } =
      s.due + (p.clients c).driver.due := rfl
  rw [hold, hnew, add_right_comm, hd, add_right_comm]

/-- A client that is new owes that it is counted. -/
theorem settle_create (hd : d' + one .opened = d) : p.create.gap + d = p.gap + d' := by
  rw [gap_create, ← hd]
  abel

/-- `register_connection` settles that. -/
theorem settle_register (hc : c < p.created) (hn : (p.clients c).driver = .none)
    (hd : d + one .opened = d') : (p.register c).gap + d = p.gap + d' := by
  have hdue : PooledClient.due { p.clients c with driver := .driving } = (p.clients c).due := by
    simp only [PooledClient.due, hn, Driver.due]
  have hdriving : (p.modify c fun client => { client with driver := .driving }).gap + d' =
      p.gap + d' := settle_modify hc (by rw [hdue])
  rw [← hdriving]
  exact settle_add .opened rfl hd

end PoolInner

theorem ClientState.due_of_ne_idle {s : ClientState} (h : s ≠ .closed) (hi : s ≠ .idle) :
    s.due = one .opened := by
  cases s with
  | idle => exact absurd rfl hi
  | closed => exact absurd rfl h
  | _ => rfl

namespace Checkout

open PoolInner

variable {p p' : PoolInner} {t t' : Checkout} {e : Event}

/-- **What a step of a task settles**: the counters change by what the task and the clients owe
less. -/
theorem Step.settles (h : Step p t e p' t') (hl : t.leak e = none)
    (hc : ∀ c, t.client = some c → c < p.created) (hf : t.Fits p.stateOf)
    (hd : ∀ c, t = registering c → (p.clients c).driver = .none) :
    p'.gap + t.due = p.gap + t'.due := by
  cases h with
  | cancel_wait | cancel_connect => cases hl
  | enter => exact settle_add .waiters rfl (zero_add _)
  | expired | stop_waiting => exact settle_sub .waiters rfl (zero_add _)
  | use => exact settle_add .inUse rfl (zero_add _)
  | take h =>
      refine settle_setState (hc _ rfl) ?_
      simp only [h, ClientState.due, due]
      abel
  | uncount => exact settle_sub .idle rfl rfl
  | discard h =>
      refine settle_setState (hc _ rfl) ?_
      rw [ClientState.due_of_ne_idle h hf]
      simp only [ClientState.due, due]
      abel
  | discarded => exact settle_sub .opened rfl rfl
  | connect => exact settle_create (sub_add_cancel _ _)
  | @register c => exact settle_register (hc c rfl) (hd c rfl) (sub_add_cancel _ _)
  | refused | drop => exact settle_sub .inUse rfl (zero_add _)
  | give_back h =>
      refine settle_setState (hc _ rfl) ?_
      simp only [h, ClientState.due, due]
      abel
  | count => exact settle_add .idle rfl (neg_add_cancel _)
  | close h =>
      refine settle_setState (hc _ rfl) ?_
      simp only [h, ClientState.due, due]
      abel
  | closed => exact settle_sub .opened rfl (zero_add _)
  | _ => rfl

/-- A task that is dropped leaves its due behind. -/
theorem Step.leaves (h : Step p t e p' t') {k : Leak} (hl : t.leak e = some k) :
    p' = p ∧ t.due = t'.due + k.due := by
  cases h with
  | cancel_wait | cancel_connect =>
      cases hl
      exact ⟨rfl, (zero_add _).symm⟩
  | _ => cases hl

end Checkout

namespace Prewarm

open PoolInner

variable {p p' : PoolInner} {w w' : Prewarm}

/-- The client `prewarm` has in hand is new until `IDLE` is stored into it. -/
def Fresh (p : PoolInner) : Prewarm → Prop
  | registering _ c => p.stateOf c ≠ .idle ∧ (p.clients c).driver = .none
  | storing _ c => p.stateOf c ≠ .idle
  | _ => True

/-- **What a step of `prewarm` settles**, and what it leaves behind. -/
theorem Step.settles (h : Step p w p' w') (hc : ∀ c, w.client = some c → c < p.created)
    (hf : w.Fresh p) :
    p'.gap + w.due = p.gap + (w'.due + Tally.total Leak.due (w.leak p).toList) := by
  have nothing : ∀ d : Counter → UInt64, d + Tally.total Leak.due [] = d := fun d => add_zero d
  cases h with
  | connect => exact settle_create ((congrArg (· + _) (nothing _)).trans (neg_add_cancel _))
  | fail | finish => exact congrArg _ (nothing _).symm
  | @register n c =>
      exact settle_register (hc c rfl) hf.2 ((neg_add_cancel _).trans (nothing _).symm)
  | @store n c =>
      refine settle_setState (hc c rfl) ?_
      cases hs : p.stateOf c with
      | idle => exact absurd hs hf
      | checkedOut | closed =>
          simp only [leak, hs, ClientState.due, due, Leak.due, reduceCtorEq, if_true, if_false,
            Option.toList_some, Option.toList_none, Tally.total_cons, Tally.total_nil]
          abel
  | count => exact settle_add .idle rfl ((neg_add_cancel _).trans (nothing _).symm)
  | push _ => exact congrArg _ (nothing _).symm

end Prewarm

/-- A driver has swapped the state of a client that was not closed. -/
def Driver.Sound : Driver → Prop
  | swapped previous => previous ≠ .closed
  | _ => True

/-- **What a step of a connection settles**: what `close_connection` has yet to subtract. -/
theorem Driver.Step.settles {P : Pool} {p' : PoolInner} (h : Driver.Step P p')
    (hd : ∀ c, (P.inner.clients c).driver.Sound) : p'.gap = P.inner.gap := by
  have settled : ∀ {p p' : PoolInner}, p'.gap + 0 = p.gap + 0 → p'.gap = p.gap :=
    fun h => by simpa using h
  cases h with
  | finish hc => exact settled (PoolInner.settle_modify hc rfl)
  | gone hc h _ | swap_closed hc h => exact settled (PoolInner.settle_modify hc (by rw [h]; rfl))
  | swap hc h _ =>
      refine settled (PoolInner.settle_modify hc ?_)
      simp only [h, PooledClient.due, Driver.due, ClientState.due]
      abel
  | @uncount_open c s hc h =>
      have hs : s ≠ .closed := by
        have := hd c
        rwa [h] at this
      refine settled ((PoolInner.settle_sub .opened rfl (neg_add_cancel _)).trans
        (PoolInner.settle_modify hc ?_))
      cases s with
      | closed => exact absurd rfl hs
      | checkedOut | idle =>
          simp only [PooledClient.due, h, Driver.due, ClientState.due, reduceCtorEq, if_true,
            if_false]
          abel
  | uncount_idle hc h =>
      refine settled ((PoolInner.settle_sub .idle rfl (neg_add_cancel _)).trans
        (PoolInner.settle_modify hc ?_))
      simp only [PooledClient.due, h, Driver.due]
      abel

/-! ### Runs -/

/-- One step of the pool, with what it leaves behind. -/
inductive Pool.Leaves : Pool → Option Leak → Pool → Prop where
  | spawn {p w ts} : Leaves ⟨p, w, ts⟩ none ⟨p, w, .outside :: ts⟩
  | task {p p' l l' t t'} {e : Event} (h : Checkout.Step p t e p' t') :
      Leaves ⟨p, .finished, l ++ t :: l'⟩ (t.leak e) ⟨p', .finished, l ++ t' :: l'⟩
  | prewarm {p p' w w' ts} (h : Prewarm.Step p w p' w') : Leaves ⟨p, w, ts⟩ (w.leak p) ⟨p', w', ts⟩
  | driver {p w ts p'} (h : Driver.Step ⟨p, w, ts⟩ p') : Leaves ⟨p, w, ts⟩ none ⟨p', w, ts⟩

/-- Every step leaves something or nothing behind. -/
theorem Pool.step_iff {P P' : Pool} : Pool.Step P P' ↔ ∃ k, Pool.Leaves P k P' := by
  constructor
  · intro h
    cases h with
    | spawn => exact ⟨_, .spawn⟩
    | task h => exact ⟨_, .task h⟩
    | prewarm h => exact ⟨_, .prewarm h⟩
    | driver h => exact ⟨_, .driver h⟩
  · rintro ⟨k, h⟩
    cases h with
    | spawn => exact .spawn
    | task h => exact .task h
    | prewarm h => exact .prewarm h
    | driver h => exact .driver h

/-- A run of the pool, with all that its steps leave behind. -/
inductive Pool.Run (P₀ : Pool) : List Leak → Pool → Prop where
  | refl : Run P₀ [] P₀
  | step {log P k P'} (h : Run P₀ log P) (hs : Leaves P k P') : Run P₀ (k.toList ++ log) P'

theorem Pool.Run.reached {P₀ P : Pool} {log : List Leak} (h : Run P₀ log P) :
    Relation.ReflTransGen Pool.Step P₀ P := by
  induction h with
  | refl => exact .refl
  | step _ hs ih => exact ih.tail (Pool.step_iff.mpr ⟨_, hs⟩)

theorem Pool.exists_run {P₀ P : Pool} (h : Relation.ReflTransGen Pool.Step P₀ P) :
    ∃ log, Pool.Run P₀ log P := by
  induction h with
  | refl => exact ⟨[], .refl⟩
  | tail _ hs ih =>
      obtain ⟨log, hrun⟩ := ih
      obtain ⟨k, hk⟩ := Pool.step_iff.mp hs
      exact ⟨_, hrun.step hk⟩

/-- A step changes only the clients the task has in hand before or after it. -/
theorem Checkout.Step.clients_eq {p p' : PoolInner} {t t' : Checkout} {e : Event}
    (h : Step p t e p' t') {c : ClientId} (hc : t.client ≠ some c) (hc' : t'.client ≠ some c) :
    p'.clients c = p.clients c := by
  cases h with
  | take _ | discard _ | give_back _ | close _ | register =>
      exact Function.update_of_ne (fun hx => hc (by rw [hx]; rfl)) _ _
  | connect => exact Function.update_of_ne (fun hx => hc' (by rw [hx]; rfl)) _ _
  | _ => rfl

/-- The drivers of all clients are sound. -/
def PoolInner.Sound (p : PoolInner) : Prop := ∀ c, (p.clients c).driver.Sound

theorem PoolInner.Sound.update {p p' : PoolInner} {c : ClientId} {client : PooledClient}
    (h : p.Sound) (hp : p'.clients = Function.update p.clients c client)
    (hc : client.driver.Sound) : p'.Sound := by
  intro c'
  rw [hp]
  by_cases hx : c' = c
  · rw [hx, Function.update_self]
    exact hc
  · rw [Function.update_of_ne hx]
    exact h c'

theorem Checkout.Step.sound {p p' : PoolInner} {t t' : Checkout} {e : Event}
    (h : Step p t e p' t') (hd : p.Sound) : p'.Sound := by
  cases h with
  | @take c _ | @discard c _ | @give_back c _ | @close c _ => exact hd.update rfl (hd c)
  | register | connect => exact hd.update rfl trivial
  | _ => exact hd

theorem Prewarm.Step.sound {p p' : PoolInner} {w w' : Prewarm} (h : Step p w p' w')
    (hd : p.Sound) : p'.Sound := by
  cases h with
  | @store n c => exact hd.update rfl (hd c)
  | register | connect => exact hd.update rfl trivial
  | _ => exact hd

theorem Driver.Step.sound {P : Pool} {p' : PoolInner} (h : Driver.Step P p')
    (hd : P.inner.Sound) : p'.Sound := by
  cases h with
  | @finish c _ => exact hd.update rfl (hd c)
  | gone _ _ _ | swap_closed _ _ | uncount_idle _ _ => exact hd.update rfl trivial
  | swap _ _ hs => exact hd.update rfl hs
  | @uncount_open c s _ _ =>
      refine hd.update rfl ?_
      dsimp only
      split <;> trivial

/-- A client without a driver gets none from the connections. -/
theorem Driver.Step.driver_none {P : Pool} {p' : PoolInner} (h : Driver.Step P p') {c : ClientId}
    (hc : (P.inner.clients c).driver = .none) : (p'.clients c).driver = .none := by
  have other : ∀ {d : ClientId} {client : PooledClient}, (P.inner.clients d).driver ≠ .none →
      (Function.update P.inner.clients d client c).driver = .none := by
    intro d client hd
    have hne : c ≠ d := fun hx => hd (hx ▸ hc)
    rw [Function.update_of_ne hne]
    exact hc
  cases h with
  | @finish d _ =>
      by_cases hx : c = d
      · subst hx
        simpa [PoolInner.modify] using hc
      · simpa [PoolInner.modify, Function.update_of_ne hx] using hc
  | gone _ h _ | swap _ h _ | swap_closed _ h | uncount_open _ h | uncount_idle _ h =>
      exact other (by simp [h])

/-- **The counters are the sum of all dues**, of what was left behind too. -/
structure Balanced (log : List Leak) (P : Pool) : Prop where
  inv : Inv P
  gap : P.inner.gap = Tally.total Checkout.due P.tasks + P.prewarm.due + Tally.total Leak.due log
  /-- No one uses the pool before `prewarm` is over. -/
  unused : P.prewarm ≠ .finished → ∀ t ∈ P.tasks, t = .outside
  registering : ∀ c, .registering c ∈ P.tasks → (P.inner.clients c).driver = .none
  fresh : P.prewarm.Fresh P.inner
  drivers : P.inner.Sound

namespace Balanced

variable {log : List Leak} {p p' : PoolInner} {w w' : Prewarm} {l l' ts : List Checkout}
  {t t' : Checkout} {e : Event}

theorem client_lt {P : Pool} (h : Balanced log P) {t : Checkout} (ht : t ∈ P.tasks) (c : ClientId)
    (hc : t.client = some c) : c < P.inner.created :=
  h.inv.created c (.inr (.inr ⟨t, ht, hc⟩))

/-- A step of a task keeps the balance. -/
theorem task (h : Balanced log ⟨p, .finished, l ++ t :: l'⟩) (hs : Checkout.Step p t e p' t') :
    Balanced ((t.leak e).toList ++ log) ⟨p', .finished, l ++ t' :: l'⟩ := by
  have ht : t ∈ l ++ t :: l' := by simp
  have hinv : Inv ⟨p', .finished, l ++ t' :: l'⟩ := h.inv.task hs
  refine ⟨hinv, ?_, fun hw => absurd rfl hw, ?_, trivial, hs.sound h.drivers⟩
  · have hgap : p.gap = Tally.total Checkout.due (l ++ t :: l') + 0 + Tally.total Leak.due log :=
      h.gap
    have htotal : Tally.total Checkout.due (l ++ t' :: l') =
        Tally.total Checkout.due (l ++ t :: l') - t.due + t'.due := Tally.total_replace
    change p'.gap = Tally.total Checkout.due (l ++ t' :: l') + 0 + _
    cases hl : t.leak e with
    | none =>
        have hset := hs.settles hl (h.client_lt ht) (h.inv.tasks t ht)
          fun c hc => h.registering c (hc ▸ ht)
        rw [eq_sub_of_add_eq hset, hgap, htotal]
        simp only [Option.toList_none, List.nil_append]
        abel
    | some k =>
        obtain ⟨rfl, hdue⟩ := hs.leaves hl
        rw [hgap, htotal, hdue]
        simp only [Option.toList_some, List.cons_append, List.nil_append, Tally.total_cons]
        abel
  · intro c hc
    rcases mem_replace hc with rfl | hother
    · cases hs with
      | connect => simp [PoolInner.create]
    · have hne : t.client ≠ some c := fun htc => h.inv.client_ne l l' rfl htc hother rfl
      have hne' : t'.client ≠ some c := fun htc => hinv.client_ne l l' rfl htc hother rfl
      rw [hs.clients_eq hne hne']
      exact h.registering c (mem_insert_of_mem hother)

/-- A step of `prewarm` keeps the balance. -/
theorem prewarmStep (h : Balanced log ⟨p, w, ts⟩) (hs : Prewarm.Step p w p' w') :
    Balanced ((w.leak p).toList ++ log) ⟨p', w', ts⟩ := by
  have hw : w ≠ .finished := by
    rintro rfl
    cases hs
  have hout : ∀ t ∈ ts, t = .outside := h.unused hw
  refine ⟨h.inv.prewarmStep hs, ?_, fun _ => hout, ?_, ?_, hs.sound h.drivers⟩
  · have hgap : p.gap = Tally.total Checkout.due ts + w.due + Tally.total Leak.due log := h.gap
    have hset := hs.settles (fun c hc => h.inv.created c (.inl hc)) h.fresh
    change p'.gap = Tally.total Checkout.due ts + w'.due + _
    rw [eq_sub_of_add_eq hset, hgap, Tally.total_append]
    abel
  · intro c hc
    cases hout _ hc
  · have hf := h.fresh
    cases hs with
    | connect => exact ⟨by simp, by simp [PoolInner.create]⟩
    | register => simpa [Prewarm.Fresh] using hf.1
    | _ => trivial

/-- A step of a connection keeps the balance. -/
theorem driver (h : Balanced log ⟨p, w, ts⟩) (hs : Driver.Step ⟨p, w, ts⟩ p') :
    Balanced log ⟨p', w, ts⟩ := by
  have hclosed : ∀ c, p.stateOf c ≠ .idle → p'.stateOf c ≠ .idle := by
    intro c hc
    rcases hs.closes c with hx | hx
    · rwa [hx]
    · simp [hx]
  refine ⟨h.inv.driver hs, (hs.settles h.drivers).trans h.gap, h.unused,
    fun c hc => hs.driver_none (h.registering c hc), ?_, hs.sound h.drivers⟩
  have hf := h.fresh
  cases w with
  | registering n c => exact ⟨hclosed c hf.1, hs.driver_none hf.2⟩
  | storing n c => exact hclosed c hf
  | _ => trivial

/-- **What a step of the pool leaves behind, the balance takes up.** -/
theorem step {P P' : Pool} {k : Option Leak} (h : Balanced log P) (hs : Pool.Leaves P k P') :
    Balanced (k.toList ++ log) P' := by
  cases hs with
  | spawn =>
      refine ⟨h.inv.step .spawn, ?_, fun hw => ?_, ?_, h.fresh, h.drivers⟩
      · exact h.gap.trans (by rw [Tally.total_cons]; simp [Checkout.due])
      · exact List.forall_mem_cons.mpr ⟨rfl, h.unused hw⟩
      · intro c hc
        rcases List.mem_cons.mp hc with hc | hc
        · cases hc
        · exact h.registering c hc
  | task hs => exact h.task hs
  | prewarm hs => exact h.prewarmStep hs
  | driver hs => exact h.driver hs

/-- A pool is balanced as it is made. -/
theorem made {P : Pool} (h : P.Made) : Balanced [] P := by
  cases h with
  | @connect config hcheck =>
      refine ⟨.made (.connect hcheck), ?_, ?_, ?_, trivial, fun c => trivial⟩
      · funext k
        cases k <;>
          simp [Pool.connect, PoolInner.gap, Tally.upTo, PoolState.value, Prewarm.due]
      · exact fun _ t ht => absurd ht List.not_mem_nil
      · exact fun c hc => absurd hc List.not_mem_nil
  | @fromClient isClosed =>
      refine ⟨.made .fromClient, ?_, ?_, ?_, trivial, fun c => trivial⟩
      · funext k
        cases k <;>
          simp [Pool.fromClient, PoolInner.gap, Tally.upTo, PoolState.value, Prewarm.due,
            PooledClient.due, ClientState.due, Driver.due, one]
      · exact fun _ t ht => absurd ht List.not_mem_nil
      · exact fun c hc => absurd hc List.not_mem_nil

theorem of_run {P₀ P : Pool} (hm : P₀.Made) (h : Pool.Run P₀ log P) : Balanced log P := by
  induction h with
  | refl => exact .made hm
  | step _ hs ih => exact ih.step hs

end Balanced

/-! ### At rest -/

/-- No `acquire` is under way and there is no live connection. -/
def Pool.AtRest (P : Pool) : Prop := ∀ t ∈ P.tasks, t = .outside

/-- The number of clients in `available` that are not closed. -/
def PoolInner.usable (p : PoolInner) : ℕ := p.available.countP fun c => p.stateOf c ≠ .closed

/-- `close_connection` has yet to subtract from `open`. -/
def Driver.owesOpen : Driver → Bool
  | swapped previous => previous ≠ .closed
  | _ => false

/-- `close_connection` has yet to subtract from `idle`. -/
def Driver.owesIdle : Driver → Bool
  | swapped previous => previous = .idle
  | uncounted => true
  | _ => false

/-- The number of clients whose driver owes something. -/
def PoolInner.closing (p : PoolInner) (owes : Driver → Bool) : ℕ :=
  (List.range p.created).countP fun c => owes (p.clients c).driver

/-- One if `prewarm` has a client of the kind in hand. -/
def Pool.inHand (P : Pool) (q : ClientState → Bool) : ℕ :=
  P.prewarm.client.toList.countP fun c => q (P.inner.stateOf c)

/-- What `open` is too high by: `close_connection` has yet to subtract it, or it is counted for the
client that `prewarm` has in hand. -/
def Pool.owedOpen (P : Pool) : UInt64 :=
  UInt64.ofNat (P.inner.closing Driver.owesOpen) + UInt64.ofNat (P.inHand fun s => s ≠ .closed) +
    P.prewarm.due .opened

/-- What `idle` is too high by. -/
def Pool.owedIdle (P : Pool) : UInt64 :=
  UInt64.ofNat (P.inner.closing Driver.owesIdle) + UInt64.ofNat (P.inHand fun s => s = .idle) +
    P.prewarm.due .idle

theorem nsmul_one (n : ℕ) : n • (1 : UInt64) = UInt64.ofNat n := by
  induction n with
  | zero => rfl
  | succ n ih => rw [succ_nsmul, ih, UInt64.ofNat_add]; rfl

/-- The sum over the clients, by what is counted for a state and for a driver. -/
theorem upTo_due (f : ClientId → PooledClient) (n : ℕ) (k : Counter) :
    Tally.upTo PooledClient.due f n k =
      Tally.upTo (fun client => client.state.due k) f n +
        Tally.upTo (fun client => client.driver.due k) f n := by
  simp only [Tally.upTo, Finset.sum_apply, ← Finset.sum_add_distrib]
  rfl

theorem Leak.total_due (log : List Leak) :
    Tally.total Leak.due log .idle = 0 ∧
      Tally.total Leak.due log .inUse = UInt64.ofNat (log.count .connect) ∧
      Tally.total Leak.due log .opened = - UInt64.ofNat (log.count .revival) ∧
      Tally.total Leak.due log .waiters = UInt64.ofNat (log.count .wait) := by
  induction log with
  | nil => simp
  | cons k log ih =>
      obtain ⟨h₁, h₂, h₃, h₄⟩ := ih
      cases k <;> simp [Leak.due, one, h₁, h₂, h₃, h₄, UInt64.ofNat_add, add_comm]

/-- A sum over the clients that counts one for some of them. -/
theorem upTo_eq_countP {w : PooledClient → UInt64} (q : PooledClient → Bool)
    (h : ∀ client, w client = if q client then 1 else 0) (f : ClientId → PooledClient) (n : ℕ) :
    Tally.upTo w f n = UInt64.ofNat ((List.range n).countP fun c => q (f c)) := by
  have hw : w = fun client => if q client then 1 else 0 := funext h
  rw [hw, Tally.upTo_indicator, nsmul_one]

theorem ClientState.due_opened (client : PooledClient) :
    client.state.due .opened = if decide (client.state ≠ .closed) then 1 else 0 := by
  cases client.state <;> simp [due, one]

theorem ClientState.due_idle (client : PooledClient) :
    client.state.due .idle = if decide (client.state = .idle) then 1 else 0 := by
  cases client.state <;> simp [due, one]

theorem Driver.due_opened (client : PooledClient) :
    client.driver.due .opened = if client.driver.owesOpen then 1 else 0 := by
  rcases client.driver with _ | _ | s | _ | _
  case swapped => cases s <;> simp [due, ClientState.due, owesOpen, one]
  all_goals simp [due, owesOpen, one]

theorem Driver.due_idle (client : PooledClient) :
    client.driver.due .idle = if client.driver.owesIdle then 1 else 0 := by
  rcases client.driver with _ | _ | s | _ | _
  case swapped => cases s <;> simp [due, ClientState.due, owesIdle, one]
  all_goals simp [due, owesIdle, one]

/-- Clients are counted on `open` and `idle` only. -/
theorem PooledClient.due_eq_zero {k : Counter} (hk : k = .inUse ∨ k = .waiters)
    (client : PooledClient) : client.due k = 0 := by
  have hstate : ∀ s : ClientState, s.due k = 0 := by
    rcases hk with rfl | rfl <;> intro s <;> cases s <;> simp [ClientState.due, one]
  have hdriver : client.driver.due k = 0 := by
    rcases client.driver with _ | _ | s | _ | _
    case swapped => exact hstate s
    case uncounted => rcases hk with rfl | rfl <;> simp [Driver.due, one]
    all_goals rfl
  exact (congrArg₂ (· + ·) (hstate _) hdriver).trans (add_zero 0)

theorem upTo_due_eq_zero {k : Counter} (hk : k = .inUse ∨ k = .waiters)
    (f : ClientId → PooledClient) (n : ℕ) : Tally.upTo PooledClient.due f n k = 0 := by
  rw [Tally.upTo, Finset.sum_apply]
  exact Finset.sum_eq_zero fun c _ => PooledClient.due_eq_zero hk (f c)

namespace Balanced

variable {log : List Leak} {P : Pool}

/-- At rest, a client that is not closed is in `available`, or `prewarm` has it in hand. -/
theorem mem_stock (h : Balanced log P) (hr : P.AtRest) {c : ClientId} :
    c < P.inner.created ∧ P.inner.stateOf c ≠ .closed ↔
      c ∈ P.prewarm.client.toList ++ P.inner.available ∧ P.inner.stateOf c ≠ .closed := by
  rw [List.mem_append, Option.mem_toList]
  refine and_congr_left fun hs => ⟨fun hc => ?_, fun hc => ?_⟩
  · have hrefers := Pool.mem_stock.mp (h.inv.lending.owned c ⟨hc, hs⟩)
    rcases hrefers with hw | ha | ⟨t, ht, htc⟩
    · exact .inl hw
    · exact .inr ha
    · rw [hr t ht] at htc
      cases htc
  · rcases hc with hw | ha
    · exact h.inv.created c (.inl hw)
    · exact h.inv.created c (.inr (.inl ha))

theorem nodup_stock (h : Balanced log P) :
    (P.prewarm.client.toList ++ P.inner.available).Nodup :=
  (List.nodup_append.mp h.inv.lending.nodup).1

theorem nodup_available (h : Balanced log P) : P.inner.available.Nodup :=
  (List.nodup_append.mp h.nodup_stock).2.1

/-- At rest, the clients of a kind among those that are not closed are those of `available` and the
one that `prewarm` has in hand. -/
theorem countP_range (h : Balanced log P) (hr : P.AtRest) {q : ClientState → Bool}
    (hq : ∀ s, q s = true → s ≠ .closed) :
    (List.range P.inner.created).countP (fun c => q (P.inner.stateOf c)) =
      P.inHand q + P.inner.available.countP fun c => q (P.inner.stateOf c) := by
  have hperm : ((List.range P.inner.created).filter fun c => q (P.inner.stateOf c)).Perm
      ((P.prewarm.client.toList ++ P.inner.available).filter fun c => q (P.inner.stateOf c)) := by
    refine (List.perm_ext_iff_of_nodup (List.nodup_range.filter _)
      (h.nodup_stock.filter _)).mpr fun c => ?_
    have hmem := h.mem_stock hr (c := c)
    simp only [List.mem_filter, List.mem_range]
    constructor
    · exact fun ⟨hc, hqc⟩ => ⟨(hmem.mp ⟨hc, hq _ hqc⟩).1, hqc⟩
    · exact fun ⟨hc, hqc⟩ => ⟨(hmem.mpr ⟨hc, hq _ hqc⟩).1, hqc⟩
  rw [Pool.inHand, ← List.countP_append, List.countP_eq_length_filter,
    List.countP_eq_length_filter, hperm.length_eq]

theorem countP_opened (h : Balanced log P) (hr : P.AtRest) :
    (List.range P.inner.created).countP (fun c => decide (P.inner.stateOf c ≠ .closed)) =
      P.inHand (fun s => decide (s ≠ .closed)) + P.inner.usable :=
  h.countP_range hr (q := fun s => decide (s ≠ .closed)) fun _ hs => of_decide_eq_true hs

theorem countP_idle (h : Balanced log P) (hr : P.AtRest) :
    (List.range P.inner.created).countP (fun c => decide (P.inner.stateOf c = .idle)) =
      P.inHand (fun s => decide (s = .idle)) + P.inner.usable := by
  have hidle : ∀ s : ClientState, decide (s = .idle) = true → s ≠ .closed := by
    intro s hs
    rw [of_decide_eq_true hs]
    simp
  rw [h.countP_range hr (q := fun s => decide (s = .idle)) hidle]
  -- a client of `available` is idle or closed
  refine congrArg (_ + ·) (List.countP_congr fun c hc => ?_)
  have hs := h.inv.available c hc
  revert hs
  cases P.inner.stateOf c <;> simp

/-- The counters at rest. -/
theorem at_rest (h : Balanced log P) (hr : P.AtRest) :
    P.inner.state.waiters = UInt64.ofNat (log.count .wait) ∧
      P.inner.state.inUse = UInt64.ofNat (log.count .connect) ∧
      P.inner.state.opened + UInt64.ofNat (log.count .revival) =
        UInt64.ofNat P.inner.usable + P.owedOpen ∧
      P.inner.state.idle = UInt64.ofNat P.inner.usable + P.owedIdle := by
  have htasks : Tally.total Checkout.due P.tasks = 0 :=
    Tally.total_eq_zero fun t ht => by rw [hr t ht]; rfl
  obtain ⟨hidle, hinUse, hopened, hwaiters⟩ := Leak.total_due log
  have hvalue : ∀ k, P.inner.state.value k = P.prewarm.due k + Tally.total Leak.due log k +
      Tally.upTo PooledClient.due P.inner.clients P.inner.created k := by
    intro k
    have hgap := congrFun h.gap k
    rw [htasks, zero_add] at hgap
    exact sub_eq_iff_eq_add.mp hgap
  have opened : Tally.upTo PooledClient.due P.inner.clients P.inner.created .opened =
      UInt64.ofNat (P.inHand fun s => decide (s ≠ .closed)) + UInt64.ofNat P.inner.usable +
        UInt64.ofNat (P.inner.closing Driver.owesOpen) := by
    rw [upTo_due, upTo_eq_countP _ ClientState.due_opened, upTo_eq_countP _ Driver.due_opened]
    exact congrArg (UInt64.ofNat · + _) (h.countP_opened hr)
      |>.trans (by rw [UInt64.ofNat_add]; rfl)
  have idle : Tally.upTo PooledClient.due P.inner.clients P.inner.created .idle =
      UInt64.ofNat (P.inHand fun s => decide (s = .idle)) + UInt64.ofNat P.inner.usable +
        UInt64.ofNat (P.inner.closing Driver.owesIdle) := by
    rw [upTo_due, upTo_eq_countP _ ClientState.due_idle, upTo_eq_countP _ Driver.due_idle]
    exact congrArg (UInt64.ofNat · + _) (h.countP_idle hr) |>.trans (by rw [UInt64.ofNat_add]; rfl)
  have hprewarm : P.prewarm.due .waiters = 0 ∧ P.prewarm.due .inUse = 0 := by
    cases P.prewarm <;> simp [Prewarm.due, one]
  refine ⟨?_, ?_, ?_, ?_⟩
  · exact (hvalue .waiters).trans
      (by rw [hprewarm.1, hwaiters, upTo_due_eq_zero (.inr rfl), add_zero, zero_add])
  · exact (hvalue .inUse).trans
      (by rw [hprewarm.2, hinUse, upTo_due_eq_zero (.inl rfl), add_zero, zero_add])
  · have hv : P.inner.state.opened = _ := hvalue .opened
    rw [hv, hopened, opened, Pool.owedOpen]
    abel
  · have hv : P.inner.state.idle = _ := hvalue .idle
    rw [hv, hidle, idle, Pool.owedIdle]
    abel

end Balanced

/-- `prewarm` has no client in hand: no round of it is under way. -/
def Prewarm.Resting : Prewarm → Prop
  | opening _ | finished | failed => True
  | _ => False

/-- No `close_connection` is under way. -/
def PoolInner.Settled (p : PoolInner) : Prop :=
  ∀ c < p.created, (p.clients c).driver.owesOpen = false ∧ (p.clients c).driver.owesIdle = false

theorem PoolInner.Settled.closing_eq_zero {p : PoolInner} (h : p.Settled) :
    p.closing Driver.owesOpen = 0 ∧ p.closing Driver.owesIdle = 0 := by
  constructor
  · exact List.countP_eq_zero.mpr fun c hc => by simp [(h c (List.mem_range.mp hc)).1]
  · exact List.countP_eq_zero.mpr fun c hc => by simp [(h c (List.mem_range.mp hc)).2]

/-- No `close_connection` and no round of `prewarm` is under way. -/
structure Pool.Quiet (P : Pool) : Prop where
  settled : P.inner.Settled
  resting : P.prewarm.Resting

/-- Then nothing is owed. -/
theorem Pool.Quiet.owed_eq_zero {P : Pool} (h : P.Quiet) : P.owedOpen = 0 ∧ P.owedIdle = 0 := by
  obtain ⟨h₁, h₂⟩ := h.settled.closing_eq_zero
  have hclient : P.prewarm.client = none ∧ P.prewarm.due = 0 := by
    have hp := h.resting
    revert hp
    cases P.prewarm <;> simp [Prewarm.Resting, Prewarm.client, Prewarm.due]
  have hhand : ∀ q, P.inHand q = 0 := fun q => by rw [Pool.inHand, hclient.1]; rfl
  constructor
  · rw [Pool.owedOpen, h₁, hhand, hclient.2]
    rfl
  · rw [Pool.owedIdle, h₂, hhand, hclient.2]
    rfl

/-- The counters as they should be at rest: nobody waits, nothing is in use, and what is open is
idle and in `available`. -/
def PoolInner.Exact (p : PoolInner) : Prop :=
  p.state.waiters = 0 ∧ p.state.inUse = 0 ∧ p.state.opened = UInt64.ofNat p.usable ∧
    p.state.idle = UInt64.ofNat p.usable

theorem ofNat_eq_zero_iff (n : ℕ) : UInt64.ofNat n = 0 ↔ 2 ^ 64 ∣ n := by
  rw [← UInt64.toNat_inj, UInt64.toNat_ofNat', Nat.dvd_iff_mod_eq_zero]
  rfl

theorem usable_le {log : List Leak} {P : Pool} (h : Balanced log P) :
    P.inner.usable ≤ P.inner.max := by
  rw [PoolInner.usable, List.countP_eq_length_filter]
  refine h.inv.lending.length_le (h.nodup_available.filter _) fun c hc => ?_
  obtain ⟨hmem, hs⟩ := List.mem_filter.mp hc
  exact ⟨h.inv.created c (.inr (.inl hmem)), of_decide_eq_true hs⟩

/-- **At rest the counters are exact if and only if nothing was left behind.**  In every run and
every state of it with no `acquire` under way and no live connection, `waiters` and `in_use` are
the numbers of futures of `acquire` that were dropped while they waited and while they connected;
`open` is the number of usable clients, less one for each closed client that `prewarm` took for an
idle one; and both `open` and `idle` are higher by what is owed.  Nothing is owed when no
`close_connection` and no round of `prewarm` is under way: then the counters are exact if and only
if the run has no step of these three kinds, up to multiples of `2 ^ 64` of them. -/
theorem at_rest_iff {P₀ P : Pool} {log : List Leak} (hm : P₀.Made) (h : Pool.Run P₀ log P)
    (hr : P.AtRest) :
    P.inner.usable ≤ P.inner.max ∧
      P.inner.state.waiters = UInt64.ofNat (log.count .wait) ∧
      P.inner.state.inUse = UInt64.ofNat (log.count .connect) ∧
      P.inner.state.opened + UInt64.ofNat (log.count .revival) =
        UInt64.ofNat P.inner.usable + P.owedOpen ∧
      P.inner.state.idle = UInt64.ofNat P.inner.usable + P.owedIdle ∧
      (P.inner.Exact ↔ 2 ^ 64 ∣ log.count .wait ∧ 2 ^ 64 ∣ log.count .connect ∧
        P.owedOpen = UInt64.ofNat (log.count .revival) ∧ P.owedIdle = 0) ∧
      (P.Quiet → (P.inner.Exact ↔ ∀ k : Leak, 2 ^ 64 ∣ log.count k)) := by
  have hb := Balanced.of_run hm h
  obtain ⟨hwaiters, hinUse, hopened, hidle⟩ := hb.at_rest hr
  have hopen : P.inner.state.opened = UInt64.ofNat P.inner.usable ↔
      P.owedOpen = UInt64.ofNat (log.count .revival) := by
    constructor
    · intro heq
      rw [heq] at hopened
      exact (add_left_cancel hopened).symm
    · intro heq
      rw [heq] at hopened
      exact add_right_cancel hopened
  have hzero : P.inner.state.idle = UInt64.ofNat P.inner.usable ↔ P.owedIdle = 0 := by
    rw [hidle]
    exact add_eq_left
  have hexact : P.inner.Exact ↔ 2 ^ 64 ∣ log.count .wait ∧ 2 ^ 64 ∣ log.count .connect ∧
      P.owedOpen = UInt64.ofNat (log.count .revival) ∧ P.owedIdle = 0 := by
    rw [PoolInner.Exact, hopen, hzero, hwaiters, hinUse, ofNat_eq_zero_iff, ofNat_eq_zero_iff]
  refine ⟨usable_le hb, hwaiters, hinUse, hopened, hidle, hexact, fun hquiet => ?_⟩
  obtain ⟨h₁, h₂⟩ := hquiet.owed_eq_zero
  rw [hexact, h₁, h₂, eq_comm, ofNat_eq_zero_iff]
  constructor
  · rintro ⟨hw, hc, hv, -⟩ k
    cases k with
    | wait => exact hw
    | connect => exact hc
    | revival => exact hv
  · exact fun hk => ⟨hk .wait, hk .connect, hk .revival, rfl⟩

/-! ### Samples -/

namespace Sample

/-- A step of the first task, and of the second. -/
theorem step_first {p p' : PoolInner} {t t' : Checkout} {e : Event} {ts : List Checkout}
    (h : Checkout.Step p t e p' t') :
    Pool.Leaves ⟨p, .finished, t :: ts⟩ (t.leak e) ⟨p', .finished, t' :: ts⟩ :=
  @Pool.Leaves.task p p' [] ts t t' e h

theorem step_second {p p' : PoolInner} {t t' u : Checkout} {e : Event} {ts : List Checkout}
    (h : Checkout.Step p t e p' t') :
    Pool.Leaves ⟨p, .finished, u :: t :: ts⟩ (t.leak e) ⟨p', .finished, u :: t' :: ts⟩ :=
  @Pool.Leaves.task p p' [u] ts t t' e h

/-- A pool of one connection. -/
def pool : Pool := .connect { maxConnections := 1 }

theorem made_pool : pool.Made := .connect rfl

/-- The pool after its connection is opened, and after `prewarm`. -/
def opened : PoolInner := pool.inner.create.register 0

def warm : PoolInner :=
  { (opened.setState 0 .idle).count fun s => { s with idle := s.idle + 1 } with available := [0] }

theorem run_opened : Pool.Run pool [] ⟨opened, .storing 0 0, []⟩ :=
  .step (.step .refl (.prewarm .connect)) (.prewarm .register)

theorem run_warm : Pool.Run pool [] ⟨warm, .finished, []⟩ :=
  .step (.step (.step (.step run_opened (.prewarm .store)) (.prewarm .count))
    (.prewarm (.push rfl))) (.prewarm .finish)

/-- The clients of a pool that has made one. -/
theorem settled_of_created {p : PoolInner} (hp : p.created = 1)
    (h : (p.clients 0).driver.owesOpen = false ∧ (p.clients 0).driver.owesIdle = false) :
    p.Settled := by
  intro c hc
  have h0 : c = 0 := by rw [hp] at hc; exact Nat.lt_one_iff.mp hc
  rw [h0]
  exact h

/-- The pool while its connection is held. -/
def held : PoolInner :=
  { warm.setState 0 .checkedOut with
    permits := 0, available := [], state := { idle := 0, inUse := 1, opened := 1, waiters := 0 } }

/-- Two tasks, the first of which has acquired the connection. -/
theorem run_held : Pool.Run pool [] ⟨held, .finished, [.holding 0 true, .outside]⟩ :=
  ((((((((((run_warm.step .spawn).step .spawn).step (step_first .enter)).step
    (step_first (.grant rfl))).step (step_first .stop_waiting)).step (step_first .use)).step
    (step_first (.lock rfl))).step (step_first (.pop rfl))).step (step_first (.take rfl))).step
    (step_first .uncount)).step (step_first (.usable rfl))

/-- The second task waits until the first one returns the connection, takes it and returns it. -/
theorem returned : ∃ P, Pool.Run pool [] P ∧ P.AtRest ∧ P.Quiet ∧ P.inner.usable = 1 := by
  have hfirst := (((((run_held.step (step_second .enter)).step (step_first .drop)).step
    (step_first (.give_back rfl))).step (step_first .count)).step (step_first (.push rfl))).step
    (step_first .release)
  have hheld := (((((((hfirst.step (step_second (.grant rfl))).step
    (step_second .stop_waiting)).step
    (step_second .use)).step (step_second (.lock rfl))).step (step_second (.pop rfl))).step
    (step_second (.take rfl))).step (step_second .uncount)).step (step_second (.usable rfl))
  have hrest := ((((hheld.step (step_second .drop)).step (step_second (.give_back rfl))).step
    (step_second .count)).step (step_second (.push rfl))).step (step_second .release)
  exact ⟨_, hrest, by simp [Pool.AtRest], ⟨settled_of_created rfl ⟨rfl, rfl⟩, trivial⟩, rfl⟩

/-- **A future of `acquire` is dropped while it waits** for the only connection; then the connection
is returned. -/
theorem dropped_while_waiting :
    ∃ P, Pool.Run pool [.wait] P ∧ P.AtRest ∧ P.Quiet ∧ P.inner.state.waiters = 1 := by
  have hdropped := (run_held.step (step_second .enter)).step (step_second .cancel_wait)
  have hrest := ((((hdropped.step (step_first .drop)).step (step_first (.give_back rfl))).step
    (step_first .count)).step (step_first (.push rfl))).step (step_first .release)
  exact ⟨_, hrest, by simp [Pool.AtRest], ⟨settled_of_created rfl ⟨rfl, rfl⟩, trivial⟩, rfl⟩

/-- **A future of `acquire` is dropped while it connects**, in place of a connection that ended. -/
theorem dropped_while_connecting :
    ∃ P, Pool.Run pool [.connect] P ∧ P.AtRest ∧ P.Quiet ∧ P.inner.state.inUse = 1 := by
  have hended := run_warm.step (.driver (.finish Nat.zero_lt_one))
  have htaken := (((((((((hended.step .spawn).step (step_first .enter)).step
    (step_first (.grant rfl))).step (step_first .stop_waiting)).step (step_first .use)).step
    (step_first (.lock rfl))).step (step_first (.pop rfl))).step (step_first (.take rfl))).step
    (step_first .uncount)).step (step_first (.unusable rfl))
  have hconnects := ((htaken.step (step_first (.discard (by decide)))).step
    (step_first .discarded)).step (step_first (.empty rfl))
  have hrest := (hconnects.step (step_first .cancel_connect)).step (step_first .release)
  exact ⟨_, hrest, by simp [Pool.AtRest], ⟨settled_of_created rfl ⟨rfl, rfl⟩, trivial⟩, rfl⟩

/-- **A connection ends while `prewarm` has it in hand**, and its client is closed before `prewarm`
stores `IDLE` into it. -/
theorem closed_in_prewarm :
    ∃ P, Pool.Run pool [.revival] P ∧ P.AtRest ∧ P.Quiet ∧ P.inner.state.opened = 0 ∧
      P.inner.state.idle = 1 ∧ P.inner.usable = 1 := by
  have hclosed := ((run_opened.step (.driver (.finish Nat.zero_lt_one))).step
    (.driver (.swap Nat.zero_lt_one rfl (by decide)))).step
    (.driver (.uncount_open Nat.zero_lt_one rfl))
  have hrest := (((hclosed.step (.prewarm .store)).step (.prewarm .count)).step
    (.prewarm (.push rfl))).step (.prewarm .finish)
  exact ⟨_, hrest, by simp [Pool.AtRest], ⟨settled_of_created rfl ⟨rfl, rfl⟩, trivial⟩, rfl, rfl,
    rfl⟩

end Sample

/-- A pool after a connection was acquired and returned is at rest, and its counters are exact. -/
theorem at_rest_iff_of_returned :
    ∃ P, Pool.Run Sample.pool [] P ∧ P.AtRest ∧ P.Quiet ∧ P.inner.usable = 1 ∧ P.inner.Exact := by
  obtain ⟨P, hrun, hr, hquiet, husable⟩ := Sample.returned
  exact ⟨P, hrun, hr, hquiet, husable,
    ((at_rest_iff Sample.made_pool hrun hr).2.2.2.2.2.2 hquiet).mpr fun k => by simp⟩

/-- **The counters can be off at rest**, each by one step. -/
theorem not_exact_at_rest :
    (∃ P : Pool, P.Reached ∧ P.AtRest ∧ P.Quiet ∧ P.inner.state.waiters = 1) ∧
      (∃ P : Pool, P.Reached ∧ P.AtRest ∧ P.Quiet ∧ P.inner.state.inUse = 1) ∧
      ∃ P : Pool, P.Reached ∧ P.AtRest ∧ P.Quiet ∧ P.inner.state.opened = 0 ∧
        P.inner.state.idle = 1 ∧ P.inner.usable = 1 := by
  obtain ⟨P₁, hrun₁, h₁⟩ := Sample.dropped_while_waiting
  obtain ⟨P₂, hrun₂, h₂⟩ := Sample.dropped_while_connecting
  obtain ⟨P₃, hrun₃, h₃⟩ := Sample.closed_in_prewarm
  exact ⟨⟨P₁, ⟨_, Sample.made_pool, hrun₁.reached⟩, h₁⟩,
    ⟨P₂, ⟨_, Sample.made_pool, hrun₂.reached⟩, h₂⟩, ⟨P₃, ⟨_, Sample.made_pool, hrun₃.reached⟩, h₃⟩⟩

end CockroachPool
end Pulpitum
