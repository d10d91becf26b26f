import Mathlib
import Pulpitum.Ports.Storage
import Pulpitum.Support.Lending
import Pulpitum.Support.Runs

/-!
# Adapters — Cockroach pool

`CockroachPool`: a semaphore with one permit per connection, a stack of idle clients under a lock,
and clients whose state is changed by compare-exchange.  Any number of tasks acquire connections
and drop them, each atomic operation and each access to the stack being a step of its own; the
connections can end at any time, and the task that drives one then closes its client.

* `Inv`: the clients are lent as a `Lender` lends, and a client's state fits where it is.
* `capacity_and_exclusive`: there are never more clients that are not closed than
  `max_connections`, and no client is held by two connections.
-/

namespace Pulpitum

/-- `CockroachPoolConfig`. -/
structure CockroachPoolConfig where
  maxConnections : ℕ := 16
  acquireTimeout : Duration := 5 * 10 ^ 9
  connectTimeout : Duration := 10 * 10 ^ 9
  transactionTimeout : Duration := 30 * 10 ^ 9
  commitTimeout : Duration := 10 * 10 ^ 9
  rollbackTimeout : Duration := 5 * 10 ^ 9

/-- The checks of `connect_with_transport`. -/
def CockroachPoolConfig.check (config : CockroachPoolConfig) : Except StoreError Unit :=
  if config.maxConnections = 0 then
    .error (.other "CockroachDB pool max_connections must be greater than zero")
  else if config.acquireTimeout = 0 || config.connectTimeout = 0 ||
      config.transactionTimeout = 0 || config.commitTimeout = 0 || config.rollbackTimeout = 0 then
    .error (.other "CockroachDB pool timeouts must be greater than zero")
  else .ok ()

namespace CockroachPool

/-- A client, by the number of clients created before it. -/
abbrev ClientId := ℕ

/-- The state of a `PooledClient`. -/
inductive ClientState where
  | checkedOut
  | idle
  | closed
deriving DecidableEq

/-- Where the task is that `register_connection` spawns to drive a connection. -/
inductive Driver where
  /-- There is none: not yet, or the connection is driven by the caller of `from_client`. -/
  | none
  | driving
  /-- In `close_connection`, before `open.fetch_sub`. -/
  | swapped (previous : ClientState)
  /-- In `close_connection`, before `idle.fetch_sub`. -/
  | uncounted
  | done
deriving DecidableEq

/-- `PooledClient`, with what `client.is_closed()` returns and its driver. -/
structure PooledClient where
  state : ClientState
  isClosed : Bool
  driver : Driver
deriving DecidableEq

/-- `PoolState`: counters that wrap. -/
structure PoolState where
  idle : UInt64
  inUse : UInt64
  opened : UInt64
  waiters : UInt64
deriving DecidableEq

/-- `PoolInner`, with the clients it has created. -/
structure PoolInner where
  max : ℕ
  permits : ℕ
  /-- The stack of idle clients, its top first. -/
  available : List ClientId
  /-- The stack is locked. -/
  locked : Bool
  state : PoolState
  created : ℕ
  clients : ClientId → PooledClient

namespace PoolInner

/-- Change one client. -/
def modify (p : PoolInner) (c : ClientId) (f : PooledClient → PooledClient) : PoolInner :=
  { p with clients := Function.update p.clients c (f (p.clients c)) }

/-- Change a counter. -/
def count (p : PoolInner) (f : PoolState → PoolState) : PoolInner := { p with state := f p.state }

/-- `compare_exchange`, `swap` or `store`, when it writes. -/
def setState (p : PoolInner) (c : ClientId) (s : ClientState) : PoolInner :=
  p.modify c fun client => { client with state := s }

/-- The client that `register_connection` makes. -/
def create (p : PoolInner) : PoolInner :=
  { p with
    created := p.created + 1
    clients := Function.update p.clients p.created ⟨.checkedOut, false, .none⟩ }

/-- The rest of `register_connection`. -/
def register (p : PoolInner) (c : ClientId) : PoolInner :=
  (p.modify c fun client => { client with driver := .driving }).count
    fun s => { s with opened := s.opened + 1 }

/-- The state of a client. -/
def stateOf (p : PoolInner) (c : ClientId) : ClientState := (p.clients c).state

/-- The clients whose state is not `CLOSED`. -/
def notClosed (p : PoolInner) : List ClientId :=
  (List.range p.created).filter fun c => p.stateOf c ≠ .closed

end PoolInner

/-- Where a task is in `acquire`, with its connection, or in the drop of it. -/
inductive Checkout where
  | outside
  -- `acquire`, up to the permit
  | waiting
  | expired
  | granted
  | admitted
  -- `take_idle_connection`
  | looking
  | popping
  | popped (c : ClientId)
  | taken (c : ClientId)
  | testing (c : ClientId)
  | discarding (c : ClientId)
  | discarded
  -- `open_connection`
  | connecting
  | refused
  | registering (c : ClientId)
  /-- A live `PooledConnection`. -/
  | holding (c : ClientId) (reusable : Bool)
  -- `drop`
  | returning (c : ClientId) (reusable : Bool)
  | idled (c : ClientId)
  | pushing (c : ClientId)
  | closedOut
  | releasing
deriving DecidableEq

/-- What the code around the pool does or sees in a step. -/
inductive Event where
  | quiet
  /-- `acquire` is polled first. -/
  | enter
  /-- `acquire` returns a connection. -/
  | acquired
  /-- `acquire` returns an error. -/
  | failed
  /-- The future of `acquire` is dropped. -/
  | cancelled
  /-- `mark_reusable` or `mark_uncertain`. -/
  | mark (reusable : Bool)
  | drop

/-- One step of a task. -/
inductive Checkout.Step : PoolInner → Checkout → Event → PoolInner → Checkout → Prop where
  -- `acquire`
  | enter {p} : Step p outside .enter (p.count fun s => { s with waiters := s.waiters + 1 }) waiting
  | grant {p n} (h : p.permits = n + 1) : Step p waiting .quiet { p with permits := n } granted
  | expire {p} : Step p waiting .quiet p expired
  /-- The future is dropped while it waits for a permit; the waiter stays counted. -/
  | cancel_wait {p} : Step p waiting .cancelled p outside
  | expired {p} :
      Step p expired .failed (p.count fun s => { s with waiters := s.waiters - 1 }) outside
  | stop_waiting {p} :
      Step p granted .quiet (p.count fun s => { s with waiters := s.waiters - 1 }) admitted
  | use {p} : Step p admitted .quiet (p.count fun s => { s with inUse := s.inUse + 1 }) looking
  -- `take_idle_connection`
  | lock {p} (h : p.locked = false) : Step p looking .quiet { p with locked := true } popping
  | pop {p c s} (h : p.available = c :: s) :
      Step p popping .quiet { p with available := s } (popped c)
  | empty {p} (h : p.available = []) :
      Step p popping .quiet { p with locked := false } connecting
  | take {p c} (h : p.stateOf c = .idle) :
      Step p (popped c) .quiet (p.setState c .checkedOut) (taken c)
  | skip {p c} (h : p.stateOf c ≠ .idle) : Step p (popped c) .quiet p popping
  | uncount {p c} :
      Step p (taken c) .quiet (p.count fun s => { s with idle := s.idle - 1 }) (testing c)
  | usable {p c} (h : (p.clients c).isClosed = false) :
      Step p (testing c) .acquired { p with locked := false } (holding c true)
  | unusable {p c} (h : (p.clients c).isClosed = true) :
      Step p (testing c) .quiet p (discarding c)
  | discard {p c} (h : p.stateOf c ≠ .closed) :
      Step p (discarding c) .quiet (p.setState c .closed) discarded
  | discard_closed {p c} (h : p.stateOf c = .closed) : Step p (discarding c) .quiet p popping
  | discarded {p} :
      Step p discarded .quiet (p.count fun s => { s with opened := s.opened - 1 }) popping
  -- `open_connection`
  | connect {p} : Step p connecting .quiet p.create (registering p.created)
  | register {p c} : Step p (registering c) .acquired (p.register c) (holding c true)
  | refuse {p} : Step p connecting .quiet p refused
  | refused {p} :
      Step p refused .failed (p.count fun s => { s with inUse := s.inUse - 1 }) releasing
  /-- The future is dropped while it connects; the connection stays counted as in use. -/
  | cancel_connect {p} : Step p connecting .cancelled p releasing
  -- the connection
  | mark {p c r r'} : Step p (holding c r) (.mark r') p (holding c r')
  | drop {p c r} :
      Step p (holding c r) .drop (p.count fun s => { s with inUse := s.inUse - 1 }) (returning c r)
  -- `drop`, when reusable
  | give_back {p c} (h : p.stateOf c = .checkedOut) :
      Step p (returning c true) .quiet (p.setState c .idle) (idled c)
  | give_back_closed {p c} (h : p.stateOf c ≠ .checkedOut) :
      Step p (returning c true) .quiet p releasing
  | count {p c} :
      Step p (idled c) .quiet (p.count fun s => { s with idle := s.idle + 1 }) (pushing c)
  | push {p c} (h : p.locked = false) :
      Step p (pushing c) .quiet { p with available := c :: p.available } releasing
  -- `drop`, when not
  | close {p c} (h : p.stateOf c = .checkedOut) :
      Step p (returning c false) .quiet (p.setState c .closed) closedOut
  | close_closed {p c} (h : p.stateOf c ≠ .checkedOut) :
      Step p (returning c false) .quiet p releasing
  | closed {p} :
      Step p closedOut .quiet (p.count fun s => { s with opened := s.opened - 1 }) releasing
  /-- The fields of the connection are dropped, the permit last. -/
  | release {p} : Step p releasing .quiet { p with permits := p.permits + 1 } outside

/-- Where `prewarm` is, with the rounds left after this one. -/
inductive Prewarm where
  | opening (rounds : ℕ)
  | registering (rounds : ℕ) (c : ClientId)
  | storing (rounds : ℕ) (c : ClientId)
  | counting (rounds : ℕ) (c : ClientId)
  | pushing (rounds : ℕ) (c : ClientId)
  | finished
  | failed
deriving DecidableEq

/-- One step of `prewarm`. -/
inductive Prewarm.Step : PoolInner → Prewarm → PoolInner → Prewarm → Prop where
  | connect {p n} : Step p (opening (n + 1)) p.create (registering n p.created)
  | fail {p n} : Step p (opening (n + 1)) p failed
  | register {p n c} : Step p (registering n c) (p.register c) (storing n c)
  /-- A plain store, whatever the state was. -/
  | store {p n c} : Step p (storing n c) (p.setState c .idle) (counting n c)
  | count {p n c} :
      Step p (counting n c) (p.count fun s => { s with idle := s.idle + 1 }) (pushing n c)
  | push {p n c} (h : p.locked = false) :
      Step p (pushing n c) { p with available := c :: p.available } (opening n)
  | finish {p} : Step p (opening 0) p finished

/-- The pool, `prewarm`, and the tasks that use the pool. -/
structure Pool where
  inner : PoolInner
  prewarm : Prewarm
  tasks : List Checkout

/-- The client a task has in hand. -/
def Checkout.client : Checkout → Option ClientId
  | popped c | taken c | testing c | discarding c | registering c | holding c _ | returning c _
  | idled c | pushing c => some c
  | _ => none

/-- The client `prewarm` has in hand. -/
def Prewarm.client : Prewarm → Option ClientId
  | registering _ c | storing _ c | counting _ c | pushing _ c => some c
  | _ => none

/-- Someone refers to the client. -/
def Pool.Refers (p : Pool) (c : ClientId) : Prop :=
  p.prewarm.client = some c ∨ c ∈ p.inner.available ∨ ∃ t ∈ p.tasks, t.client = some c

/-- One step of a connection and of the task that drives it. -/
inductive Driver.Step (p : Pool) : PoolInner → Prop where
  /-- The connection ends. -/
  | finish {c} (hc : c < p.inner.created) :
      Step p (p.inner.modify c fun client => { client with isClosed := true })
  /-- No one refers to the client any more. -/
  | gone {c s} (hc : c < p.inner.created) (h : p.inner.clients c = ⟨s, true, .driving⟩)
      (hr : ¬ p.Refers c) :
      Step p (p.inner.modify c fun client => { client with driver := .done })
  | swap {c s} (hc : c < p.inner.created) (h : p.inner.clients c = ⟨s, true, .driving⟩)
      (hs : s ≠ .closed) :
      Step p (p.inner.modify c fun _ => ⟨.closed, true, .swapped s⟩)
  | swap_closed {c} (hc : c < p.inner.created)
      (h : p.inner.clients c = ⟨.closed, true, .driving⟩) :
      Step p (p.inner.modify c fun client => { client with driver := .done })
  | uncount_open {c s} (hc : c < p.inner.created)
      (h : (p.inner.clients c).driver = .swapped s) :
      Step p ((p.inner.modify c fun client =>
          { client with driver := if s = .idle then .uncounted else .done }).count
        fun s => { s with opened := s.opened - 1 })
  | uncount_idle {c} (hc : c < p.inner.created)
      (h : (p.inner.clients c).driver = .uncounted) :
      Step p ((p.inner.modify c fun client => { client with driver := .done }).count
        fun s => { s with idle := s.idle - 1 })

/-- One step of the pool.  The pool has no users until `prewarm` is over. -/
inductive Pool.Step : Pool → Pool → Prop where
  | spawn {p w ts} : Step ⟨p, w, ts⟩ ⟨p, w, .outside :: ts⟩
  | task {p p' l l' t t'} {e : Event} (h : Checkout.Step p t e p' t') :
      Step ⟨p, .finished, l ++ t :: l'⟩ ⟨p', .finished, l ++ t' :: l'⟩
  | prewarm {p p' w w' ts} (h : Prewarm.Step p w p' w') : Step ⟨p, w, ts⟩ ⟨p', w', ts⟩
  | driver {p w ts p'} (h : Driver.Step ⟨p, w, ts⟩ p') : Step ⟨p, w, ts⟩ ⟨p', w, ts⟩

/-- The pool as `connect_with_transport` makes it. -/
def Pool.connect (config : CockroachPoolConfig) : Pool where
  inner := ⟨config.maxConnections, config.maxConnections, [], false, ⟨0, 0, 0, 0⟩, 0,
    fun _ => ⟨.closed, true, .none⟩⟩
  prewarm := .opening config.maxConnections
  tasks := []

/-- The pool as `from_client` makes it; the client given to it may be closed. -/
def Pool.fromClient (isClosed : Bool) : Pool where
  inner := ⟨1, 1, [0], false, ⟨1, 0, 1, 0⟩, 1, fun _ => ⟨.idle, isClosed, .none⟩⟩
  prewarm := .finished
  tasks := []

/-- A pool as it is made. -/
inductive Pool.Made : Pool → Prop where
  | connect {config : CockroachPoolConfig} (h : config.check = .ok ()) : Made (.connect config)
  | fromClient {isClosed : Bool} : Made (.fromClient isClosed)

/-- The states of a pool. -/
def Pool.Reached (p : Pool) : Prop := ∃ p₀, Made p₀ ∧ Relation.ReflTransGen Step p₀ p

/-! ### The clients -/

namespace PoolInner

variable {p : PoolInner} {c c' : ClientId} {s : ClientState}

@[simp] theorem setState_created : (p.setState c s).created = p.created := rfl

@[simp] theorem setState_available : (p.setState c s).available = p.available := rfl

@[simp] theorem setState_permits : (p.setState c s).permits = p.permits := rfl

@[simp] theorem setState_max : (p.setState c s).max = p.max := rfl

@[simp]
theorem stateOf_setState_self : (p.setState c s).stateOf c = s := by
  simp [setState, modify, stateOf]

theorem stateOf_setState_of_ne (h : c' ≠ c) : (p.setState c s).stateOf c' = p.stateOf c' := by
  simp [setState, modify, stateOf, Function.update_of_ne h]

/-- A change that keeps the state of the client keeps all states. -/
theorem stateOf_modify (c' : ClientId) {f : PooledClient → PooledClient}
    (h : (f (p.clients c)).state = (p.clients c).state) :
    (p.modify c f).stateOf c' = p.stateOf c' := by
  by_cases hc : c' = c
  · subst hc; simp [modify, stateOf, h]
  · simp [modify, stateOf, Function.update_of_ne hc]

@[simp] theorem create_created : p.create.created = p.created + 1 := rfl

@[simp]
theorem stateOf_create_self : p.create.stateOf p.created = .checkedOut := by
  simp [create, stateOf]

theorem stateOf_create_of_ne (h : c ≠ p.created) : p.create.stateOf c = p.stateOf c := by
  simp [create, stateOf, Function.update_of_ne h]

@[simp] theorem stateOf_count {f : PoolState → PoolState} :
    (p.count f).stateOf c = p.stateOf c := rfl

@[simp] theorem stateOf_register : (p.register c).stateOf c' = p.stateOf c' := by
  rw [register, stateOf_count, stateOf_modify c' rfl]

/-- The clients whose state is not `CLOSED`, as a set. -/
def live (p : PoolInner) : Set ClientId := {c | c < p.created ∧ p.stateOf c ≠ .closed}

theorem mem_notClosed : c ∈ p.notClosed ↔ c ∈ p.live := by
  simp [notClosed, live]

theorem nodup_notClosed : p.notClosed.Nodup := List.nodup_range.filter _

/-- The set depends on the clients created and their states only. -/
theorem live_congr {p' : PoolInner} (hc : p'.created = p.created)
    (h : ∀ c, p'.stateOf c = p.stateOf c) : p'.live = p.live := by
  ext c
  simp [live, hc, h]

theorem live_setState_closed : (p.setState c .closed).live ⊆ p.live := by
  rintro x ⟨hx, hs⟩
  by_cases hxc : x = c
  · subst hxc; exact absurd stateOf_setState_self hs
  · exact ⟨hx, stateOf_setState_of_ne hxc ▸ hs⟩

/-- A client that stays open under a change of its state. -/
theorem live_setState (hc : p.stateOf c ≠ .closed) (hs : s ≠ .closed) :
    (p.setState c s).live = p.live := by
  ext x
  by_cases hxc : x = c
  · subst hxc; simp [live, hc, hs]
  · simp [live, stateOf_setState_of_ne hxc]

/-- A client that is opened again, or stays open. -/
theorem live_setState_insert (hc : c < p.created) (hs : s ≠ .closed) :
    (p.setState c s).live = insert c p.live := by
  ext x
  by_cases hxc : x = c
  · subst hxc; simp [live, hc, hs]
  · simp [live, stateOf_setState_of_ne hxc, hxc]

theorem live_create : p.create.live = insert p.created p.live := by
  ext x
  by_cases hx : x = p.created
  · subst hx; simp [live]
  · have : x ≤ p.created ↔ x < p.created := ⟨fun h => Nat.lt_of_le_of_ne h hx, Nat.le_of_lt⟩
    simp [live, hx, stateOf_create_of_ne hx, this]

theorem live_register : (p.register c).live = p.live :=
  live_congr rfl fun _ => stateOf_register

end PoolInner

/-! ### The pool as a lender -/

/-- Where a task is, as a borrower. -/
def Checkout.borrower : Checkout → Borrower ClientId
  | outside | waiting | expired => .away
  | granted | admitted | looking | popping | discarded | closedOut | releasing => .seeking
  | connecting | refused => .building
  | popped c | taken c | testing c | discarding c | registering c | holding c _ | returning c _
  | idled c | pushing c => .holding c

@[simp] theorem Checkout.held_borrower (t : Checkout) : t.borrower.held = t.client := by
  cases t <;> rfl

/-- The pool as a lender: what `prewarm` has in hand is on the shelf. -/
def Pool.lender (p : Pool) : Lender ClientId :=
  ⟨p.inner.permits, p.prewarm.client.toList ++ p.inner.available,
    p.tasks.map Checkout.borrower, p.inner.live⟩

theorem Pool.mem_stock {p : Pool} {c : ClientId} : c ∈ p.lender.stock ↔ p.Refers c := by
  simp [lender, Lender.stock, Lender.inventory, Refers]

/-- The state of the client a task has in hand fits where the task is. -/
def Checkout.Fits (state : ClientId → ClientState) : Checkout → Prop
  | popped c | idled c | pushing c => state c ≠ .checkedOut
  | taken c | testing c | discarding c | registering c | holding c _ | returning c _ =>
      state c ≠ .idle
  | _ => True

/-- What is left to do for `prewarm` is what is missing in the pool. -/
def Prewarm.Fits (p : PoolInner) : Prewarm → Prop
  | opening n => p.permits = p.max ∧ p.available.length + n = p.max
  | registering n _ | storing n _ => p.permits = p.max ∧ p.available.length + (n + 1) = p.max
  | counting n c | pushing n c =>
      p.permits = p.max ∧ p.available.length + (n + 1) = p.max ∧ p.stateOf c ≠ .checkedOut
  | finished | failed => True

/-- What holds in every state of the pool. -/
structure Inv (p : Pool) : Prop where
  lending : p.lender.Inv p.inner.max
  created : ∀ c, p.Refers c → c < p.inner.created
  tasks : ∀ t ∈ p.tasks, t.Fits p.inner.stateOf
  available : ∀ c ∈ p.inner.available, p.inner.stateOf c ≠ .checkedOut
  prewarm : p.prewarm.Fits p.inner

/-! ### Steps of a task -/

namespace Checkout

open Relation (ReflTransGen)

variable {p p' : PoolInner} {t t' : Checkout} {e : Event}

theorem eq_closed {s : ClientState} (hi : s ≠ .idle) (hc : s ≠ .checkedOut) : s = .closed := by
  cases s <;> simp_all

/-- Each step of a task is made of moves of a borrower.  A client that is dropped is closed: its
compare-exchange failed, and where the task is, the state can only be `CLOSED`. -/
theorem Step.moves (h : Step p t e p' t') (l l' : List (Borrower ClientId))
    (hf : t.Fits p.stateOf)
    (hn : p.created ∉ Lender.inventory p.available (l ++ t.borrower :: l')) :
    ReflTransGen Lender.Move ⟨p.permits, p.available, l ++ t.borrower :: l', p.live⟩
      ⟨p'.permits, p'.available, l ++ t'.borrower :: l', p'.live⟩ := by
  have notLive : ∀ {c}, p.stateOf c = .closed → c ∉ p.live := fun hs hc => hc.2 hs
  cases h with
  | grant h => rw [h]; exact .single .enter
  | pop h => rw [h]; exact .single .take
  | empty h => rw [h]; exact .single .lack
  | take h => rw [PoolInner.live_setState (by simp [h]) (by simp)]; exact .refl
  | skip h => exact .single (.discard (notLive (eq_closed h hf)))
  | discard _ =>
      refine .tail (.single (.retire PoolInner.live_setState_closed)) (.discard ?_)
      exact fun hc => hc.2 PoolInner.stateOf_setState_self
  | discard_closed h => exact .single (.discard (notLive h))
  | connect => rw [PoolInner.live_create]; exact .single (.make hn)
  | register => rw [PoolInner.live_register]; exact .refl
  | refused => exact .single .fail
  | cancel_connect => exact .single .fail
  | give_back h => rw [PoolInner.live_setState (by simp [h]) (by simp)]; exact .refl
  | give_back_closed h => exact .single (.discard (notLive (eq_closed hf h)))
  | push _ => exact .single .putBack
  | close _ =>
      refine .tail (.single (.retire PoolInner.live_setState_closed)) (.discard ?_)
      exact fun hc => hc.2 PoolInner.stateOf_setState_self
  | close_closed h => exact .single (.discard (notLive (eq_closed hf h)))
  | release => exact .single .leave
  | _ => exact .refl

/-- A step changes only the states of the clients the task has in hand before or after it. -/
theorem Step.stateOf_eq (h : Step p t e p' t') {c : ClientId} (hc : t.client ≠ some c)
    (hc' : t'.client ≠ some c) : p'.stateOf c = p.stateOf c := by
  cases h with
  | take _ | discard _ | give_back _ | close _ =>
      exact PoolInner.stateOf_setState_of_ne fun hx => hc (by rw [hx]; rfl)
  | connect => exact PoolInner.stateOf_create_of_ne fun hx => hc' (by rw [hx]; rfl)
  | register => exact PoolInner.stateOf_register
  | _ => rfl

/-- After a step, the state of the client in hand fits again. -/
theorem Step.fits (h : Step p t e p' t') (hf : t.Fits p.stateOf)
    (ha : ∀ c ∈ p.available, p.stateOf c ≠ .checkedOut) : t'.Fits p'.stateOf := by
  cases h with
  | pop h => exact ha _ (h ▸ List.mem_cons_self)
  | take _ | give_back _ => simp [Fits]
  | connect | register => simp_all [Fits]
  | _ => trivial

/-- What a task puts on the stack is not checked out. -/
theorem Step.available (h : Step p t e p' t') (hf : t.Fits p.stateOf) {c : ClientId}
    (hc : c ∈ p'.available) : c ∈ p.available ∨ t.client = some c ∧ p'.stateOf c ≠ .checkedOut := by
  cases h with
  | pop h => exact .inl (h ▸ List.mem_cons_of_mem _ hc)
  | push _ =>
      rcases List.mem_cons.mp hc with rfl | hc
      · exact .inr ⟨rfl, hf⟩
      · exact .inl hc
  | _ => exact .inl hc

theorem Step.max_eq (h : Step p t e p' t') : p'.max = p.max := by
  cases h <;> rfl

theorem Step.created_le (h : Step p t e p' t') : p.created ≤ p'.created := by
  cases h <;> first | exact le_rfl | exact Nat.le_succ _

/-- A client in hand after a step was in hand or on the stack before, or is new. -/
theorem Step.client (h : Step p t e p' t') {c : ClientId} (hc : t'.client = some c) :
    t.client = some c ∨ c ∈ p.available ∨ c < p'.created := by
  cases h with
  | pop h =>
      cases hc
      exact .inr (.inl (h ▸ List.mem_cons_self))
  | connect =>
      cases hc
      exact .inr (.inr (Nat.lt_succ_self _))
  | _ => first | exact .inl hc | cases hc

/-- What a task has in hand keeps fitting when another changes no state of it, or closes it. -/
theorem Fits.congr {state state' : ClientId → ClientState} (hf : t.Fits state)
    (h : ∀ c, t.client = some c → state' c = state c ∨ state' c = .closed) : t.Fits state' := by
  have fits : ∀ c, t.client = some c → ∀ s ≠ .closed, state c ≠ s → state' c ≠ s := by
    intro c hc s hs hn
    rcases h c hc with h | h
    · rwa [h]
    · rw [h]; exact hs.symm
  cases t <;> first | trivial | exact fits _ rfl _ (by simp) hf

end Checkout

/-- A step of a connection changes states to `CLOSED` only. -/
theorem Driver.Step.closes {P : Pool} {p' : PoolInner} (h : Driver.Step P p') (c : ClientId) :
    p'.stateOf c = P.inner.stateOf c ∨ p'.stateOf c = .closed := by
  cases h with
  | @swap d s _ _ _ =>
      by_cases hc : c = d
      · subst hc; simp [PoolInner.modify, PoolInner.stateOf]
      · simp [PoolInner.modify, PoolInner.stateOf, Function.update_of_ne hc]
  | finish _ | gone _ _ _ | swap_closed _ _ => exact .inl (PoolInner.stateOf_modify c rfl)
  | uncount_open _ _ | uncount_idle _ _ =>
      exact .inl (PoolInner.stateOf_count.trans (PoolInner.stateOf_modify c rfl))

namespace Inv

variable {p p' : PoolInner} {w w' : Prewarm} {l l' : List Checkout} {t t' : Checkout}

/-- A client in the hand of one task is not in the hand of another. -/
theorem client_ne {P : Pool} (h : Inv P) (l l' : List Checkout) (hP : P.tasks = l ++ t :: l')
    {c : ClientId} (hc : t.client = some c) (ht' : t' ∈ l ++ l') : t'.client ≠ some c := by
  rw [← Checkout.held_borrower] at hc ⊢
  refine h.lending.held_ne (l.map Checkout.borrower) (l'.map Checkout.borrower) ?_ hc ?_
  · simp [Pool.lender, hP]
  · rw [← List.map_append]
    exact List.mem_map_of_mem ht'

/-- A client in the hand of a task is not on the stack. -/
theorem notMem_available {P : Pool} (h : Inv P) (ht : t ∈ P.tasks) {c : ClientId}
    (hc : t.client = some c) : c ∉ P.inner.available := fun ha =>
  h.lending.notMem_shelf (List.mem_map_of_mem ht) ((Checkout.held_borrower t).trans hc)
    (List.mem_append_right _ ha)

/-- A step of a task keeps the invariant. -/
theorem task {e : Event} (h : Inv ⟨p, .finished, l ++ t :: l'⟩) (hs : Checkout.Step p t e p' t') :
    Inv ⟨p', .finished, l ++ t' :: l'⟩ := by
  have ht : t ∈ l ++ t :: l' := by simp
  have hf : t.Fits p.stateOf := h.tasks t ht
  have hlending : (Pool.lender ⟨p', .finished, l ++ t' :: l'⟩).Inv p'.max := by
    have hm := hs.moves (l.map Checkout.borrower) (l'.map Checkout.borrower) hf ?_
    · have hi := h.lending
      simp only [Pool.lender, Prewarm.client, Option.toList_none, List.nil_append, List.map_append,
        List.map_cons] at hi ⊢
      exact hs.max_eq ▸ Lender.inv_of_moves hm hi
    · have hc := mt Pool.mem_stock.mp (mt (h.created p.created) (lt_irrefl _))
      simp only [Pool.lender, List.map_append, List.map_cons] at hc
      exact hc
  -- The other tasks have other clients in hand, before the step and after it.
  have hother : ∀ u ∈ l ++ l', ∀ c, u.client = some c → p'.stateOf c = p.stateOf c := by
    intro u hu c hc
    refine hs.stateOf_eq (fun htc => ?_) fun htc => ?_
    · exact h.client_ne l l' rfl htc hu hc
    · have hmem : u.borrower ∈ l.map Checkout.borrower ++ l'.map Checkout.borrower := by
        rw [← List.map_append]
        exact List.mem_map_of_mem hu
      exact hlending.held_ne _ _ (by simp [Pool.lender]) ((Checkout.held_borrower t').trans htc)
        hmem ((Checkout.held_borrower u).trans hc)
  refine ⟨hlending, fun c hc => ?_, fun u hu => ?_, fun c hc => ?_, trivial⟩
  · have hold : ∀ c, Pool.Refers ⟨p, .finished, l ++ t :: l'⟩ c → c < p'.created :=
      fun c hc => (h.created c hc).trans_le hs.created_le
    rcases hc with hc | hc | ⟨u, hu, hc⟩
    · cases hc
    · rcases hs.available hf hc with ha | ⟨hc, -⟩
      · exact hold c (.inr (.inl ha))
      · exact hold c (.inr (.inr ⟨t, ht, hc⟩))
    · rcases mem_replace hu with rfl | hu
      · rcases hs.client hc with hc | hc | hc
        · exact hold c (.inr (.inr ⟨t, ht, hc⟩))
        · exact hold c (.inr (.inl hc))
        · exact hc
      · exact hold c (.inr (.inr ⟨u, mem_insert_of_mem hu, hc⟩))
  · rcases mem_replace hu with rfl | hu
    · exact hs.fits hf h.available
    · exact (h.tasks u (mem_insert_of_mem hu)).congr fun c hc => .inl (hother u hu c hc)
  · rcases hs.available hf hc with ha | ⟨-, hs'⟩
    · have hne : t.client ≠ some c := fun htc => h.notMem_available ht htc ha
      have hne' : t'.client ≠ some c := fun htc =>
        hlending.notMem_shelf (b := t'.borrower) (by simp [Pool.lender])
          ((Checkout.held_borrower t').trans htc) (List.mem_append_right _ hc)
      exact hs.stateOf_eq hne hne' ▸ h.available c ha
    · exact hs'

/-- A change that leaves the pool as it is, but may close clients, keeps the invariant. -/
theorem closing {ts : List Checkout} (h : Inv ⟨p, w, ts⟩) (hmax : p'.max = p.max)
    (hpermits : p'.permits = p.permits) (havailable : p'.available = p.available)
    (hcreated : p'.created = p.created)
    (hs : ∀ c, p'.stateOf c = p.stateOf c ∨ p'.stateOf c = .closed) : Inv ⟨p', w, ts⟩ := by
  have hlive : p'.live ⊆ p.live := fun c hc =>
    ⟨hcreated ▸ hc.1, (hs c).resolve_right hc.2 ▸ hc.2⟩
  have notCheckedOut : ∀ c, p.stateOf c ≠ .checkedOut → p'.stateOf c ≠ .checkedOut := by
    intro c hc
    rcases hs c with h | h
    · rwa [h]
    · simp [h]
  refine ⟨?_, ?_, fun t ht => (h.tasks t ht).congr fun c _ => hs c, fun c hc => ?_, ?_⟩
  · have hm : Lender.Move (Pool.lender ⟨p, w, ts⟩) (Pool.lender ⟨p', w, ts⟩) := by
      simp only [Pool.lender, hpermits, havailable]
      exact .retire hlive
    exact hmax ▸ hm.inv h.lending
  · simpa only [Pool.Refers, havailable, hcreated] using h.created
  · exact notCheckedOut c (h.available c (havailable ▸ hc))
  · have hw := h.prewarm
    cases w with
    | finished | failed => trivial
    | counting n c | pushing n c =>
        simp only [Prewarm.Fits, hmax, hpermits, havailable] at hw ⊢
        exact ⟨hw.1, hw.2.1, notCheckedOut c hw.2.2⟩
    | _ => simpa only [Prewarm.Fits, hmax, hpermits, havailable] using hw

/-- A step of a connection keeps the invariant. -/
theorem driver {ts : List Checkout} (h : Inv ⟨p, w, ts⟩) (hs : Driver.Step ⟨p, w, ts⟩ p') :
    Inv ⟨p', w, ts⟩ := by
  have hc := hs.closes
  cases hs <;> exact h.closing rfl rfl rfl rfl hc

/-- A step of `prewarm` keeps the invariant. -/
theorem prewarmStep {ts : List Checkout} (h : Inv ⟨p, w, ts⟩) (hs : Prewarm.Step p w p' w') :
    Inv ⟨p', w', ts⟩ := by
  have hw := h.prewarm
  cases hs with
  | @connect n =>
      have hne : ∀ c, Pool.Refers ⟨p, .opening (n + 1), ts⟩ c → c ≠ p.created :=
        fun c hc => (h.created c hc).ne
      have hm : Lender.Move (Pool.lender ⟨p, .opening (n + 1), ts⟩)
          (Pool.lender ⟨p.create, .registering n p.created, ts⟩) := by
        have hn := mt Pool.mem_stock.mp fun hc => hne _ hc rfl
        have hlt : p.available.length < p.permits := by
          obtain ⟨hpermits, hleft⟩ : p.permits = p.max ∧ p.available.length + (n + 1) = p.max := hw
          omega
        simp only [Pool.lender, PoolInner.live_create]
        exact .supply hlt hn
      refine ⟨hm.inv h.lending, ?_, fun t ht => (h.tasks t ht).congr ?_, fun c hc => ?_, ?_⟩
      · rintro c (hc | hc | hc)
        · cases hc
          exact Nat.lt_succ_self _
        · exact (h.created c (.inr (.inl hc))).trans (Nat.lt_succ_self _)
        · exact (h.created c (.inr (.inr hc))).trans (Nat.lt_succ_self _)
      · exact fun c hc =>
          .inl (PoolInner.stateOf_create_of_ne (hne c (.inr (.inr ⟨t, ht, hc⟩))))
      · exact PoolInner.stateOf_create_of_ne (hne c (.inr (.inl hc))) ▸ h.available c hc
      · exact ⟨hw.1, hw.2⟩
  | fail => exact ⟨h.lending, h.created, h.tasks, h.available, trivial⟩
  | finish => exact ⟨h.lending, h.created, h.tasks, h.available, trivial⟩
  | @register n c =>
      have hreg : Inv ⟨p.register c, .registering n c, ts⟩ :=
        h.closing rfl rfl rfl rfl fun x => .inl PoolInner.stateOf_register
      exact ⟨hreg.lending, hreg.created, hreg.tasks, hreg.available, hw⟩
  | @store n c =>
      have hne : ∀ x, (x ∈ p.available ∨ ∃ t ∈ ts, t.client = some x) → x ≠ c := by
        have hnd := h.lending.nodup
        simp only [Pool.lender, Lender.stock, Lender.inventory, Prewarm.client,
          Option.toList_some, List.cons_append, List.nil_append, List.nodup_cons] at hnd
        rintro x hx rfl
        refine hnd.1 (List.mem_append.mpr ?_)
        simpa using hx
      have hm : Lender.Move (Pool.lender ⟨p, .storing n c, ts⟩)
          (Pool.lender ⟨p.setState c .idle, .counting n c, ts⟩) := by
        have hlive : (p.setState c .idle).live = insert c p.live :=
          PoolInner.live_setState_insert (h.created c (.inl rfl)) (by simp)
        simp only [Pool.lender, hlive]
        exact .revive (by simp [Prewarm.client])
      refine ⟨hm.inv h.lending, h.created, fun t ht => (h.tasks t ht).congr ?_, fun x hx => ?_, ?_⟩
      · exact fun x hx => .inl (PoolInner.stateOf_setState_of_ne (hne x (.inr ⟨t, ht, hx⟩)))
      · have hx' : (p.setState c .idle).stateOf x = p.stateOf x :=
          PoolInner.stateOf_setState_of_ne (hne x (.inl hx))
        exact hx' ▸ h.available x hx
      · exact ⟨hw.1, hw.2, by simp⟩
  | count => exact ⟨h.lending, h.created, h.tasks, h.available, hw⟩
  | @push n c _ =>
      refine ⟨h.lending, ?_, h.tasks, ?_, ?_⟩
      · rintro x (hx | hx | hx)
        · cases hx
        · rcases List.mem_cons.mp hx with rfl | hx
          · exact h.created x (.inl rfl)
          · exact h.created x (.inr (.inl hx))
        · exact h.created x (.inr (.inr hx))
      · intro x hx
        rcases List.mem_cons.mp hx with rfl | hx
        · exact hw.2.2
        · exact h.available x hx
      · obtain ⟨hpermits, hleft, -⟩ := hw
        refine ⟨hpermits, ?_⟩
        have : p.available.length + (n + 1) = p.max := hleft
        simp only [List.length_cons]
        omega

/-- **What a step of the pool preserves.** -/
theorem step {P P' : Pool} (h : Inv P) (hs : Pool.Step P P') : Inv P' := by
  cases hs with
  | spawn =>
      refine ⟨Lender.Move.hire.inv h.lending, ?_, ?_, h.available, h.prewarm⟩
      · simpa [Pool.Refers, Checkout.client] using h.created
      · exact List.forall_mem_cons.mpr ⟨trivial, h.tasks⟩
  | task hs => exact h.task hs
  | prewarm hs => exact h.prewarmStep hs
  | driver hs => exact h.driver hs

/-- What holds of a pool as it is made. -/
theorem made {P : Pool} (h : P.Made) : Inv P := by
  cases h with
  | connect _ =>
      refine ⟨⟨?_, ?_, List.nodup_nil, ?_⟩, ?_, ?_, ?_, ?_⟩ <;>
        simp [Pool.connect, Pool.lender, Pool.Refers, PoolInner.live, Prewarm.client, Prewarm.Fits]
  | fromClient =>
      refine ⟨⟨?_, ?_, ?_, fun c hc => Pool.mem_stock.mpr (.inr (.inl ?_))⟩, ?_, ?_, ?_, trivial⟩
      · simp [Pool.fromClient, Pool.lender]
      · simp [Pool.fromClient, Pool.lender, Prewarm.client]
      · exact List.nodup_singleton 0
      · simpa [Pool.fromClient, Pool.lender, PoolInner.live] using hc.1
      · simp [Pool.fromClient, Pool.Refers, Prewarm.client]
      · simp [Pool.fromClient]
      · simp [Pool.fromClient, PoolInner.stateOf]

end Inv

/-- The invariant holds along every run. -/
theorem inv_of_reached {P : Pool} (h : P.Reached) : Inv P := by
  obtain ⟨P₀, hm, hs⟩ := h
  induction hs with
  | refl => exact .made hm
  | tail _ hs ih => exact ih.step hs

/-! ### Capacity and exclusion -/

/-- The client of the connection a task has: from when `acquire` returns it until its drop has
put the client back or closed it. -/
def Checkout.connection : Checkout → Option ClientId
  | holding c _ | returning c _ | idled c | pushing c => some c
  | _ => none

theorem Checkout.client_of_connection {t : Checkout} {c : ClientId} (h : t.connection = some c) :
    t.client = some c := by
  cases t <;> first | exact h | cases h

/-- **The pool never exceeds its capacity and never shares a connection.**  In every state that
any interleaving reaches, no more clients than `max_connections` are not closed, and two tasks
whose connections have the same client are the same task. -/
theorem capacity_and_exclusive {P : Pool} (h : P.Reached) :
    P.inner.notClosed.length ≤ P.inner.max ∧
      ∀ (i j : ℕ) (c : ClientId) (t t' : Checkout), P.tasks[i]? = some t → P.tasks[j]? = some t' →
        t.connection = some c → t'.connection = some c → i = j := by
  have hi := inv_of_reached h
  refine ⟨hi.lending.length_le PoolInner.nodup_notClosed fun c => PoolInner.mem_notClosed.mp, ?_⟩
  intro i j c t t' ht ht' hc hc'
  have hb : P.lender.borrowers[i]? = some t.borrower := by simp [Pool.lender, ht]
  have hb' : P.lender.borrowers[j]? = some t'.borrower := by simp [Pool.lender, ht']
  exact hi.lending.exclusive hb hb'
    ((Checkout.held_borrower t).trans (Checkout.client_of_connection hc))
    ((Checkout.held_borrower t').trans (Checkout.client_of_connection hc'))

/-- A step of the first task, and of the second. -/
theorem Pool.Step.first {p p' : PoolInner} {t t' : Checkout} {ts : List Checkout} {e : Event}
    (h : Checkout.Step p t e p' t') :
    Pool.Step ⟨p, .finished, t :: ts⟩ ⟨p', .finished, t' :: ts⟩ :=
  @Pool.Step.task p p' [] ts t t' e h

theorem Pool.Step.second {p p' : PoolInner} {t t' u : Checkout} {ts : List Checkout} {e : Event}
    (h : Checkout.Step p t e p' t') :
    Pool.Step ⟨p, .finished, u :: t :: ts⟩ ⟨p', .finished, u :: t' :: ts⟩ :=
  @Pool.Step.task p p' [u] ts t t' e h

/-- A run in which two tasks acquire the two connections of a pool at the same time, and a third one
waits. -/
theorem capacity_and_exclusive_of_three :
    ∃ P : Pool, P.Reached ∧ P.tasks = [.holding 0 true, .holding 1 true, .waiting] ∧
      P.inner.notClosed.length ≤ P.inner.max ∧
      ∀ (i j : ℕ) (c : ClientId) (t t' : Checkout), P.tasks[i]? = some t → P.tasks[j]? = some t' →
        t.connection = some c → t'.connection = some c → i = j := by
  have hone : Relation.ReflTransGen Pool.Step (.connect { maxConnections := 2 }) _ :=
    ((((Relation.ReflTransGen.single (.prewarm .connect)).tail (.prewarm .register)).tail
      (.prewarm .store)).tail (.prewarm .count)).tail (.prewarm (.push rfl))
  have htwo := (((((hone.tail (.prewarm .connect)).tail (.prewarm .register)).tail
    (.prewarm .store)).tail (.prewarm .count)).tail (.prewarm (.push rfl))).tail (.prewarm .finish)
  -- the third task waits for a permit, which the two others are granted
  have hwaits := (((htwo.tail .spawn).tail (.first .enter)).tail .spawn).tail .spawn
  have hgranted := (((hwaits.tail (.first .enter)).tail (.second .enter)).tail
    (.first (.grant rfl))).tail (.second (.grant rfl))
  have hadmitted := (((hgranted.tail (.second .stop_waiting)).tail (.first .stop_waiting)).tail
    (.first .use)).tail (.second .use)
  have hheld := ((((hadmitted.tail (.second (.lock rfl))).tail (.second (.pop rfl))).tail
    (.second (.take rfl))).tail (.second .uncount)).tail (.second (.usable rfl))
  have hboth := ((((hheld.tail (.first (.lock rfl))).tail (.first (.pop rfl))).tail
    (.first (.take rfl))).tail (.first .uncount)).tail (.first (.usable rfl))
  have hreached : Pool.Reached _ := ⟨_, .connect rfl, hboth⟩
  exact ⟨_, hreached, rfl, capacity_and_exclusive hreached⟩

end CockroachPool

end Pulpitum
