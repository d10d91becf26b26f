import Mathlib
import Pulpitum.Support.Prog

/-!
# Support — Serial

Clients of a database with serializable transactions.  A client is a program; what its questions
and their answers mean for its connection is a `Wire`.  Nothing is assumed of the answers that
statements get inside a transaction, except that a transaction commits only where its statements,
run again in the state of that moment, get the answers they had.  The answer to a commit may be
lost, and then it takes effect at once, later, or never; a client may be given up at any question.

* `Replays`: a log of statements that is run alone.
* `runOn_of_trace`: a program that was answered as in a log that replays would have run so alone.
* `ledger`: the protocol of a client that commits at most once, and only what is `Good`.
* `Inv.step`, `Inv.reaches`: **the state is that of the committed logs one after another**, and
  each client's standing says which of them is its own.
-/

namespace Serial

section Replays

variable {Q : Type} {A : Q → Type} {α σ : Type}

/-- Run from `s`, the questions of the log get the answers that are in it, and lead to `s'`. -/
def Replays (exec : (q : Q) → σ → A q × σ) : σ → List ((q : Q) × A q) → σ → Prop
  | s, [], s' => s' = s
  | s, ⟨q, r⟩ :: log, s' => (exec q s).1 = r ∧ Replays exec (exec q s).2 log s'

/-- A program that was answered as in a log that replays would have run so alone. -/
theorem runOn_of_trace {exec : (q : Q) → σ → A q × σ} {p : Prog A α} :
    ∀ {log : List ((q : Q) × A q)} {a : α} {s s' : σ}, p.Trace log a → Replays exec s log s' →
      p.runOn exec s = (a, s') := by
  induction p with
  | ret b =>
      rintro _ _ s s' ⟨rfl, rfl⟩ rfl
      rfl
  | ask q k ih =>
      rintro _ a s s' ⟨r, log, rfl, ht⟩ ⟨rfl, hr⟩
      exact ih _ ht hr

end Replays

/-! ### Connections -/

/-- Statements with the answers they got. -/
abbrev Log (S R : Type) := List ((_ : S) × R)

/-- The connection of a client. -/
inductive Conn (S R : Type) where
  | none
  /-- Outside any transaction. -/
  | idle
  /-- In a transaction whose statements so far were answered. -/
  | opened (log : Log S R)
  /-- In a transaction that can no longer commit. -/
  | broken

/-- What a question, answered as it was, means for the connection. -/
inductive Event (S R : Type) where
  | silent
  | opened
  | closed
  | began
  | broke
  | ran (s : S) (r : R)
  /-- The answer to a statement was lost. -/
  | lost (s : S)
  | committed
  | refused
  /-- The answer to a commit was lost. -/
  | unsure
  | rolledBack

/-- What the questions of a client mean for its connection. -/
structure Wire {Q : Type} (A : Q → Type) (S R : Type) where
  event : (q : Q) → A q → Event S R
  /-- The question is asked, and its client given up. -/
  unseen : Q → Event S R
  /-- An answer after which a transaction can still commit. -/
  alive : R → Bool

/-- What a client can know of its statements: its connection, the log it asked to commit, with
whether the commit was acknowledged, and what it ran outside transactions. -/
structure Standing (S R : Type) where
  conn : Conn S R
  sent : Option (Log S R × Bool)
  ran : Log S R

section Clients

variable {Q : Type} {A : Q → Type} {α S R N σ : Type}

/-- The connection after an event. -/
def Conn.after (alive : R → Bool) : Conn S R → Event S R → Conn S R
  | _, .opened => .idle
  | _, .closed => .none
  | _, .began => .opened []
  | _, .broke => .broken
  | .opened log, .ran s r => if alive r then .opened (log ++ [⟨s, r⟩]) else .broken
  | .opened _, .lost _ => .broken
  | _, .committed => .idle
  | _, .refused => .idle
  | _, .unsure => .idle
  | _, .rolledBack => .idle
  | c, _ => c

/-- What was sent to be committed, after an event. -/
def sentAfter : Conn S R → Event S R → Option (Log S R × Bool) → Option (Log S R × Bool)
  | .opened log, .committed, _ => some (log, true)
  | .opened log, .unsure, _ => some (log, false)
  | _, _, sent => sent

/-- What was run outside transactions, after an event. -/
def ranAfter (alive : R → Bool) : Conn S R → Event S R → Log S R → Log S R
  | .idle, .ran s r, ran => if alive r then ran ++ [⟨s, r⟩] else ran
  | _, _, ran => ran

/-- The standing after an event. -/
def Standing.after (W : Wire A S R) (m : Standing S R) (ev : Event S R) : Standing S R :=
  ⟨m.conn.after W.alive ev, sentAfter m.conn ev m.sent, ranAfter W.alive m.conn ev m.ran⟩

/-- The log that an event puts into effect: of a transaction, or of one statement outside any
(`auto`).  Unless `sure`, it may also not take effect. -/
inductive Due (W : Wire A S R) : Conn S R → Event S R → Bool → Bool → Log S R → Prop where
  | committed {log : Log S R} : Due W (.opened log) .committed false true log
  | unsure {log : Log S R} : Due W (.opened log) .unsure false false log
  | ran {s : S} {r : R} (h : W.alive r = true) : Due W .idle (.ran s r) true true [⟨s, r⟩]
  | lost {s : S} {r : R} : Due W .idle (.lost s) true false [⟨s, r⟩]

/-- A log that took effect, or will. -/
structure Entry (N S R : Type) where
  client : ℕ
  auto : Bool
  /-- What its statements read besides the state. -/
  context : N
  log : Log S R

/-- The database: its state, what took effect so far, and what still may. -/
structure Server (N S R σ : Type) where
  state : σ
  history : List (Entry N S R)
  limbo : List (Entry N S R)

/-- What a server makes of an event on the connection of the client `i`. -/
inductive Server.Takes (exec : N → S → σ → R × σ) (W : Wire A S R) (i : ℕ) (c : Conn S R)
    (ev : Event S R) : Server N S R σ → Server N S R σ → Prop where
  | now {s s' : σ} {history limbo : List (Entry N S R)} {auto sure : Bool} {n : N} {log : Log S R}
      (h : Due W c ev auto sure log) (hr : Replays (exec n) s log s') :
      Takes exec W i c ev ⟨s, history, limbo⟩ ⟨s', history ++ [⟨i, auto, n, log⟩], limbo⟩
  | later {s : σ} {history limbo : List (Entry N S R)} {auto : Bool} {n : N} {log : Log S R}
      (h : Due W c ev auto false log) :
      Takes exec W i c ev ⟨s, history, limbo⟩ ⟨s, history, ⟨i, auto, n, log⟩ :: limbo⟩
  | never {s : Server N S R σ} (h : ∀ auto log, ¬ Due W c ev auto true log) :
      Takes exec W i c ev s s

/-- A client: what is left of its program, if it is not given up, and its standing. -/
structure Client (A : Q → Type) (α S R : Type) where
  program : Option (Prog A α)
  standing : Standing S R

/-- A server and its clients. -/
structure World (A : Q → Type) (α N S R σ : Type) where
  server : Server N S R σ
  clients : List (Client A α S R)

/-- A server without clients. -/
def World.init (s : σ) : World A α N S R σ := ⟨⟨s, [], []⟩, []⟩

/-- The client `i` has ended, and returned `a`. -/
def World.Returned (w : World A α N S R σ) (i : ℕ) (a : α) : Prop :=
  ∃ m, w.clients[i]? = some ⟨some (.ret a), m⟩

/-- One step.  The client that comes as number `i` runs `programs i`. -/
inductive Step (exec : N → S → σ → R × σ) (W : Wire A S R) (programs : ℕ → Prog A α) :
    World A α N S R σ → World A α N S R σ → Prop where
  | start {s : Server N S R σ} {cs : List (Client A α S R)} :
      Step exec W programs ⟨s, cs⟩ ⟨s, cs ++ [⟨some (programs cs.length), .none, none, []⟩]⟩
  | ask {s s' : Server N S R σ} {cs : List (Client A α S R)} {i : ℕ} {q : Q} {k : A q → Prog A α}
      {m : Standing S R} {r : A q} (hi : cs[i]? = some ⟨some (.ask q k), m⟩)
      (h : s.Takes exec W i m.conn (W.event q r) s') :
      Step exec W programs ⟨s, cs⟩ ⟨s', cs.set i ⟨some (k r), m.after W (W.event q r)⟩⟩
  /-- The client is given up before the answer comes. -/
  | giveUp {s s' : Server N S R σ} {cs : List (Client A α S R)} {i : ℕ} {q : Q}
      {k : A q → Prog A α} {m : Standing S R} (hi : cs[i]? = some ⟨some (.ask q k), m⟩)
      (h : s.Takes exec W i m.conn (W.unseen q) s') :
      Step exec W programs ⟨s, cs⟩ ⟨s', cs.set i ⟨none, m.after W (W.unseen q)⟩⟩
  /-- What was left open takes effect. -/
  | settle {s s' : σ} {history limbo limbo' : List (Entry N S R)} {e : Entry N S R}
      {cs : List (Client A α S R)} (h : Replays (exec e.context) s e.log s') :
      Step exec W programs ⟨⟨s, history, limbo ++ e :: limbo'⟩, cs⟩
        ⟨⟨s', history ++ [e], limbo ++ limbo'⟩, cs⟩
  /-- What was left open is given up. -/
  | vanish {s : σ} {history limbo limbo' : List (Entry N S R)} {e : Entry N S R}
      {cs : List (Client A α S R)} :
      Step exec W programs ⟨⟨s, history, limbo ++ e :: limbo'⟩, cs⟩
        ⟨⟨s, history, limbo ++ limbo'⟩, cs⟩

/-- The worlds a run reaches. -/
abbrev Reaches (exec : N → S → σ → R × σ) (W : Wire A S R) (programs : ℕ → Prog A α) :
    World A α N S R σ → World A α N S R σ → Prop :=
  Relation.ReflTransGen (Step exec W programs)

/-- A client that is alone is answered. -/
theorem Reaches.answer {exec : N → S → σ → R × σ} {W : Wire A S R} {programs : ℕ → Prog A α}
    {s s' : Server N S R σ} {q : Q} {k : A q → Prog A α} {m : Standing S R} {r : A q}
    {w : World A α N S R σ} (h : s.Takes exec W 0 m.conn (W.event q r) s')
    (hw : Reaches exec W programs ⟨s', [⟨some (k r), m.after W (W.event q r)⟩]⟩ w) :
    Reaches exec W programs ⟨s, [⟨some (.ask q k), m⟩]⟩ w :=
  .head (.ask (i := 0) rfl h) hw

/-! ### Clients that commit once -/

/-- The event is one that a client in the standing `m` may bring about. -/
def Allowed (Good : Log S R → Prop) (Auto : S → Prop) (m : Standing S R) : Event S R → Prop
  | .committed | .unsure | .refused => m.sent = none ∧ ∃ log, m.conn = .opened log ∧ Good log
  | .ran s _ | .lost s => m.conn = .idle → Auto s
  | _ => True

/-- A commit is asked for once, for a log that is `Good`; outside transactions only statements in
`Auto` are run. -/
def ledger (W : Wire A S R) (Good : Log S R → Prop) (Auto : S → Prop) : Protocol A where
  Mode := Standing S R
  may m q := (∀ r, Allowed Good Auto m (W.event q r)) ∧ Allowed Good Auto m (W.unseen q)
  after m q r := m.after W (W.event q r)

/-! ### What took effect -/

/-- The logs take effect one after another, from `s` to `s'`. -/
def Serially (exec : N → S → σ → R × σ) : σ → List (Entry N S R) → σ → Prop
  | s, [], s' => s' = s
  | s, e :: es, s' => ∃ t, Replays (exec e.context) s e.log t ∧ Serially exec t es s'

section Serially

variable {exec : N → S → σ → R × σ} {s s' s'' : σ} {es : List (Entry N S R)} {e : Entry N S R}

theorem Serially.snoc (h : Serially exec s es s') (he : Replays (exec e.context) s' e.log s'') :
    Serially exec s (es ++ [e]) s'' := by
  induction es generalizing s with
  | nil =>
      cases h
      exact ⟨s'', he, rfl⟩
  | cons x es ih =>
      obtain ⟨t, hx, ht⟩ := h
      exact ⟨t, hx, ih ht⟩

/-- What took effect before a log, the log itself, and what took effect after it. -/
theorem Serially.of_mem (h : Serially exec s es s') (he : e ∈ es) :
    ∃ es₁ es₂ t t', es = es₁ ++ e :: es₂ ∧ Serially exec s es₁ t ∧
      Replays (exec e.context) t e.log t' ∧ Serially exec t' es₂ s' := by
  induction es generalizing s with
  | nil => cases he
  | cons x es ih =>
      obtain ⟨t, hx, ht⟩ := h
      rcases List.mem_cons.mp he with rfl | he
      · exact ⟨[], es, s, t, rfl, rfl, hx, ht⟩
      · obtain ⟨es₁, es₂, t₁, t₂, rfl, h₁, h₂, h₃⟩ := ih ht he
        exact ⟨x :: es₁, es₂, t₁, t₂, rfl, ⟨t, hx, h₁⟩, h₂, h₃⟩

/-- What every log keeps holds after them all. -/
theorem Serially.keeps {P : σ → Prop} (h : Serially exec s es s')
    (hk : ∀ e ∈ es, ∀ t t', P t → Replays (exec e.context) t e.log t' → P t') (hs : P s) :
    P s' := by
  induction es generalizing s with
  | nil =>
      cases h
      exact hs
  | cons x es ih =>
      obtain ⟨t, hx, ht⟩ := h
      exact ih ht (fun e he => hk e (.tail _ he)) (hk x (.head _) s t hs hx)

end Serially

/-- The clients whose transactions the entries are of. -/
def owners (es : List (Entry N S R)) : List ℕ := (es.filter fun e => !e.auto).map Entry.client

/-- Every entry of a transaction is good and is the one its client has sent, and no two are of one
client. -/
structure Filed (Good : ℕ → Log S R → Prop) (Auto : S → Prop) (cs : List (Client A α S R))
    (es : List (Entry N S R)) : Prop where
  good : ∀ e ∈ es, e.auto = false → Good e.client e.log
  sent : ∀ e ∈ es, e.auto = false → ∃ c sure, cs[e.client]? = some c ∧
    c.standing.sent = some (e.log, sure)
  auto : ∀ e ∈ es, e.auto = true → ∃ s r, e.log = [⟨s, r⟩] ∧ Auto s
  once : (owners es).Nodup

namespace Filed

variable {Good : ℕ → Log S R → Prop} {Auto : S → Prop} {cs : List (Client A α S R)}
  {es es' : List (Entry N S R)} {e : Entry N S R} {i : ℕ} {c c' : Client A α S R}

theorem subperm (h : Filed Good Auto cs es) (hp : es'.Subperm es) : Filed Good Auto cs es' where
  good e he := h.good e (hp.subset he)
  sent e he := h.sent e (hp.subset he)
  auto e he := h.auto e (hp.subset he)
  once := by
    obtain ⟨l, hperm, hsub⟩ := hp
    have hl : (owners l).Nodup := h.once.sublist ((hsub.filter _).map _)
    exact ((hperm.filter _).map _).nodup_iff.mp hl

/-- A client moves on, and does not forget what it has sent. -/
theorem set (h : Filed Good Auto cs es) (hi : cs[i]? = some c)
    (hc : ∀ x, c.standing.sent = some x → c'.standing.sent = some x) :
    Filed Good Auto (cs.set i c') es := by
  have hlt : i < cs.length := (List.getElem?_eq_some_iff.mp hi).1
  refine ⟨h.good, fun e he hauto => ?_, h.auto, h.once⟩
  obtain ⟨x, sure, hx, hsent⟩ := h.sent e he hauto
  rcases eq_or_ne e.client i with heq | hne
  · rw [heq, hi] at hx
    cases hx
    exact ⟨c', sure, by rw [heq]; exact List.getElem?_set_self hlt, hc _ hsent⟩
  · exact ⟨x, sure, by rw [List.getElem?_set_ne hne.symm]; exact hx, hsent⟩

theorem append (h : Filed Good Auto cs es) : Filed Good Auto (cs ++ [c]) es := by
  refine ⟨h.good, fun e he hauto => ?_, h.auto, h.once⟩
  obtain ⟨x, sure, hx, hsent⟩ := h.sent e he hauto
  have hlt : e.client < cs.length := (List.getElem?_eq_some_iff.mp hx).1
  exact ⟨x, sure, by rw [List.getElem?_append_left hlt]; exact hx, hsent⟩

theorem cons_auto {n : N} {st : S} {r : R} (h : Filed Good Auto cs es) (hs : Auto st) :
    Filed Good Auto cs (⟨i, true, n, [⟨st, r⟩]⟩ :: es) := by
  refine ⟨?_, ?_, ?_, ?_⟩
  · rintro e (_ | ⟨_, he⟩) hauto
    · cases hauto
    · exact h.good e he hauto
  · rintro e (_ | ⟨_, he⟩) hauto
    · cases hauto
    · exact h.sent e he hauto
  · rintro e (_ | ⟨_, he⟩) hauto
    · exact ⟨st, r, rfl, hs⟩
    · exact h.auto e he hauto
  · exact h.once

/-- A client that had sent nothing sends its log. -/
theorem cons_sent {n : N} {log : Log S R} {sure : Bool} (h : Filed Good Auto cs es)
    (hi : cs[i]? = some c) (hnone : c.standing.sent = none)
    (hc : c'.standing.sent = some (log, sure)) (hg : Good i log) :
    Filed Good Auto (cs.set i c') (⟨i, false, n, log⟩ :: es) := by
  have hlt : i < cs.length := (List.getElem?_eq_some_iff.mp hi).1
  have hrest : Filed Good Auto (cs.set i c') es := h.set hi fun x hx => by
    rw [hnone] at hx
    cases hx
  refine ⟨?_, ?_, ?_, ?_⟩
  · rintro e (_ | ⟨_, he⟩) hauto
    · exact hg
    · exact h.good e he hauto
  · rintro e (_ | ⟨_, he⟩) hauto
    · exact ⟨c', sure, List.getElem?_set_self hlt, hc⟩
    · exact hrest.sent e he hauto
  · rintro e (_ | ⟨_, he⟩) hauto
    · cases hauto
    · exact h.auto e he hauto
  · -- an entry of the client would be one that it had sent
    have hnot : i ∉ owners es := by
      intro hmem
      obtain ⟨e, he, rfl⟩ := List.mem_map.mp hmem
      obtain ⟨he, hauto⟩ := List.mem_filter.mp he
      obtain ⟨x, sure, hx, hsent⟩ := h.sent e he (by simpa using hauto)
      rw [hi] at hx
      cases hx
      rw [hnone] at hsent
      cases hsent
    exact List.nodup_cons.mpr ⟨hnot, h.once⟩

end Filed

/-! ### The invariant -/

/-- What is due for sure is all that is due. -/
theorem Due.eq_of_sure {W : Wire A S R} {c : Conn S R} {ev : Event S R} {auto auto' sure : Bool}
    {log log' : Log S R} (h : Due W c ev auto true log) (h' : Due W c ev auto' sure log') :
    auto' = auto ∧ sure = true ∧ log' = log := by
  cases h <;> cases h' <;> exact ⟨rfl, rfl, rfl⟩

/-- The client was told that the log took effect. -/
inductive Standing.Confirms (m : Standing S R) : Bool → Log S R → Prop where
  | sent {log : Log S R} (h : m.sent = some (log, true)) : Confirms m false log
  | ran {x : (_ : S) × R} (h : x ∈ m.ran) : Confirms m true [x]

section Inv

variable {exec : N → S → σ → R × σ} {W : Wire A S R} {Good : ℕ → Log S R → Prop} {Auto : S → Prop}
  {post : ℕ → α → Standing S R → Prop} {s₀ : σ} {m : Standing S R} {ev : Event S R} {i : ℕ}

/-- The state is that of the entries one after another; each is the one its client has sent; what
a client was told took effect; and the clients keep to the ledger. -/
structure Inv (exec : N → S → σ → R × σ) (W : Wire A S R) (Good : ℕ → Log S R → Prop)
    (Auto : S → Prop) (post : ℕ → α → Standing S R → Prop) (s₀ : σ) (w : World A α N S R σ) :
    Prop where
  serial : Serially exec s₀ w.server.history w.server.state
  filed : Filed Good Auto w.clients (w.server.history ++ w.server.limbo)
  confirmed : ∀ (i : ℕ) (c : Client A α S R) auto log, w.clients[i]? = some c →
    c.standing.Confirms auto log →
      ∃ e ∈ w.server.history, e.client = i ∧ e.auto = auto ∧ e.log = log
  follows : ∀ (i : ℕ) (c : Client A α S R) (p : Prog A α), w.clients[i]? = some c →
    c.program = some p → p.Follows (ledger W (Good i) Auto) c.standing (post i)

/-- What is due of a client that keeps to its ledger: one statement, or what it now has sent. -/
theorem due_cases {auto sure : Bool} {log : Log S R} (ha : Allowed (Good i) Auto m ev)
    (h : Due W m.conn ev auto sure log) :
    auto = true ∧ (∃ s r, log = [⟨s, r⟩] ∧ Auto s) ∨
      auto = false ∧ m.sent = none ∧ Good i log ∧ (m.after W ev).sent = some (log, sure) := by
  obtain ⟨conn, sent, ran⟩ := m
  cases h with
  | committed =>
      obtain ⟨hnone, _, hconn, hg⟩ := ha
      cases hconn
      exact .inr ⟨rfl, hnone, hg, rfl⟩
  | unsure =>
      obtain ⟨hnone, _, hconn, hg⟩ := ha
      cases hconn
      exact .inr ⟨rfl, hnone, hg, rfl⟩
  | ran => exact .inl ⟨rfl, _, _, rfl, ha rfl⟩
  | lost => exact .inl ⟨rfl, _, _, rfl, ha rfl⟩

/-- A client does not forget what it has sent. -/
theorem sent_after (ha : Allowed (Good i) Auto m ev) {x : Log S R × Bool} (hx : m.sent = some x) :
    (m.after W ev).sent = some x := by
  obtain ⟨conn, sent, ran⟩ := m
  cases ev with
  | committed =>
      obtain ⟨hnone, -⟩ := ha
      cases hnone.symm.trans hx
  | unsure =>
      obtain ⟨hnone, -⟩ := ha
      cases hnone.symm.trans hx
  | _ => cases conn <;> exact hx

/-- A client is told only of what is due. -/
theorem confirms_after {auto : Bool} {log : Log S R} (h : (m.after W ev).Confirms auto log) :
    m.Confirms auto log ∨ Due W m.conn ev auto true log := by
  obtain ⟨conn, sent, ran⟩ := m
  cases h with
  | @sent log h =>
      cases ev with
      | committed =>
          cases conn with
          | opened log' =>
              cases h
              exact .inr .committed
          | _ => exact .inl (.sent h)
      | unsure =>
          cases conn with
          | opened log' => cases h
          | _ => exact .inl (.sent h)
      | _ => cases conn <;> exact .inl (.sent h)
  | @ran x h =>
      cases ev with
      | ran s r =>
          cases conn with
          | idle =>
              by_cases halive : W.alive r = true
              · have hran : x ∈ ran ++ [⟨s, r⟩] := by
                  simpa only [Standing.after, ranAfter, if_pos halive] using h
                rcases List.mem_append.mp hran with hx | hx
                · exact .inl (.ran hx)
                · obtain rfl := List.mem_singleton.mp hx
                  exact .inr (.ran halive)
              · have hran : x ∈ ran := by
                  simpa only [Standing.after, ranAfter, if_neg halive] using h
                exact .inl (.ran hran)
          | _ => exact .inl (.ran h)
      | _ => cases conn <;> exact .inl (.ran h)

/-- What is due is filed, and the client moves on. -/
theorem Filed.due {cs : List (Client A α S R)} {es : List (Entry N S R)} {p p' : Option (Prog A α)}
    {auto sure : Bool} {n : N} {log : Log S R} (h : Filed Good Auto cs es)
    (hi : cs[i]? = some ⟨p, m⟩) (ha : Allowed (Good i) Auto m ev)
    (hd : Due W m.conn ev auto sure log) :
    Filed Good Auto (cs.set i ⟨p', m.after W ev⟩) (⟨i, auto, n, log⟩ :: es) := by
  rcases due_cases ha hd with ⟨rfl, st, r, rfl, hst⟩ | ⟨rfl, hnone, hg, hsent⟩
  · exact (h.set hi fun x hx => sent_after ha hx).cons_auto hst
  · exact h.cons_sent hi hnone hsent hg

/-- The client `i` moves on by an event it may bring about. -/
theorem Inv.takes {s s' : Server N S R σ} {cs : List (Client A α S R)}
    {p p' : Option (Prog A α)} (h : Inv exec W Good Auto post s₀ ⟨s, cs⟩)
    (hi : cs[i]? = some ⟨p, m⟩) (ha : Allowed (Good i) Auto m ev)
    (ht : s.Takes exec W i m.conn ev s')
    (hf : ∀ q, p' = some q → q.Follows (ledger W (Good i) Auto) (m.after W ev) (post i)) :
    Inv exec W Good Auto post s₀ ⟨s', cs.set i ⟨p', m.after W ev⟩⟩ := by
  have hlt : i < cs.length := (List.getElem?_eq_some_iff.mp hi).1
  have hclient : ∀ {j : ℕ} {c : Client A α S R},
      (cs.set i ⟨p', m.after W ev⟩)[j]? = some c →
        j = i ∧ c = ⟨p', m.after W ev⟩ ∨ cs[j]? = some c := by
    intro j c hc
    rcases eq_or_ne j i with rfl | hne
    · rw [List.getElem?_set_self hlt] at hc
      cases hc
      exact .inl ⟨rfl, rfl⟩
    · rw [List.getElem?_set_ne hne.symm] at hc
      exact .inr hc
  have hfollows : ∀ (j : ℕ) (c : Client A α S R) (q : Prog A α),
      (cs.set i ⟨p', m.after W ev⟩)[j]? = some c → c.program = some q →
        q.Follows (ledger W (Good j) Auto) c.standing (post j) := by
    intro j c q hc hq
    rcases hclient hc with ⟨rfl, rfl⟩ | hc
    · exact hf q hq
    · exact h.follows j c q hc hq
  -- what was confirmed before is in any longer history, and only what is due is new
  have hconfirmed : ∀ {history : List (Entry N S R)}, (∀ e ∈ s.history, e ∈ history) →
      (∀ auto log, Due W m.conn ev auto true log →
        ∃ e ∈ history, e.client = i ∧ e.auto = auto ∧ e.log = log) →
      ∀ (j : ℕ) (c : Client A α S R) auto log,
        (cs.set i ⟨p', m.after W ev⟩)[j]? = some c → c.standing.Confirms auto log →
          ∃ e ∈ history, e.client = j ∧ e.auto = auto ∧ e.log = log := by
    intro history hsub hnew j c auto log hc hconf
    have hold : ∀ c, cs[j]? = some c → c.standing.Confirms auto log →
        ∃ e ∈ history, e.client = j ∧ e.auto = auto ∧ e.log = log := by
      intro c hc hconf
      obtain ⟨e, he, h'⟩ := h.confirmed j c auto log hc hconf
      exact ⟨e, hsub e he, h'⟩
    rcases hclient hc with ⟨rfl, rfl⟩ | hc
    · rcases confirms_after hconf with hconf | hd
      · exact hold _ hi hconf
      · exact hnew auto log hd
    · exact hold c hc hconf
  cases ht with
  | @now s s' history limbo auto sure n log hd hr =>
      have hperm : ∀ e : Entry N S R,
          (history ++ [e] ++ limbo).Perm (e :: (history ++ limbo)) := fun e => by
        rw [List.append_assoc]
        exact List.perm_middle
      refine ⟨h.serial.snoc hr, (h.filed.due hi ha hd).subperm (hperm _).subperm, ?_, hfollows⟩
      refine hconfirmed (fun e he => List.mem_append_left _ he) fun auto' log' hd' => ?_
      obtain ⟨rfl, -, rfl⟩ := hd'.eq_of_sure hd
      exact ⟨_, List.mem_append_right _ (.head _), rfl, rfl, rfl⟩
  | @later s history limbo auto n log hd =>
      refine ⟨h.serial, (h.filed.due hi ha hd).subperm List.perm_middle.subperm, ?_, hfollows⟩
      refine hconfirmed (fun e he => he) fun auto' log' hd' => ?_
      cases (hd'.eq_of_sure hd).2.1
  | never hno =>
      refine ⟨h.serial, h.filed.set hi fun x hx => sent_after ha hx, ?_, hfollows⟩
      exact hconfirmed (fun e he => he) fun auto log hd => absurd hd (hno auto log)

/-- Every step keeps the invariant. -/
theorem Inv.step {programs : ℕ → Prog A α} {w w' : World A α N S R σ}
    (hp : ∀ i, (programs i).Follows (ledger W (Good i) Auto) ⟨.none, none, []⟩ (post i))
    (h : Inv exec W Good Auto post s₀ w) (hs : Step exec W programs w w') :
    Inv exec W Good Auto post s₀ w' := by
  cases hs with
  | @start s cs =>
      have hlast : ∀ {j : ℕ} {c : Client A α S R},
          (cs ++ [⟨some (programs cs.length), ⟨.none, none, []⟩⟩])[j]? = some c →
          cs[j]? = some c ∨ j = cs.length ∧ c = ⟨some (programs cs.length), ⟨.none, none, []⟩⟩ := by
        intro j c hc
        rcases lt_trichotomy j cs.length with hlt | rfl | hgt
        · rw [List.getElem?_append_left hlt] at hc
          exact .inl hc
        · rw [List.getElem?_concat_length] at hc
          cases hc
          exact .inr ⟨rfl, rfl⟩
        · rw [List.getElem?_eq_none (by simp; omega)] at hc
          cases hc
      refine ⟨h.serial, h.filed.append, fun i c auto log hc hconf => ?_, fun i c p hc hprog => ?_⟩
      · rcases hlast hc with hc | ⟨-, rfl⟩
        · exact h.confirmed i c auto log hc hconf
        · rcases hconf with hsent | hran
          · cases hsent
          · cases hran
      · rcases hlast hc with hc | ⟨rfl, rfl⟩
        · exact h.follows i c p hc hprog
        · cases hprog
          exact hp _
  | ask hi ht =>
      have hfollows := h.follows _ _ _ hi rfl
      refine h.takes hi (hfollows.1.1 _) ht fun q hq => ?_
      cases hq
      exact hfollows.2 _
  | giveUp hi ht =>
      have hfollows := h.follows _ _ _ hi rfl
      exact h.takes hi hfollows.1.2 ht fun q hq => by cases hq
  | @settle s s' history limbo limbo' e cs hr =>
      refine ⟨h.serial.snoc hr, h.filed.subperm ?_, fun i c auto log hc hconf => ?_, h.follows⟩
      · refine List.Perm.subperm ?_
        simp only [List.append_assoc, List.singleton_append]
        exact (List.perm_middle.symm).append_left _
      · obtain ⟨e', he', h'⟩ := h.confirmed i c auto log hc hconf
        exact ⟨e', List.mem_append_left _ he', h'⟩
  | @vanish s history limbo limbo' e cs =>
      refine ⟨h.serial, h.filed.subperm ?_, h.confirmed, h.follows⟩
      exact (((List.sublist_cons_self e limbo').append_left _).append_left _).subperm

/-- **Every run keeps the invariant.** -/
theorem Inv.reaches {programs : ℕ → Prog A α} {w : World A α N S R σ}
    (hp : ∀ i, (programs i).Follows (ledger W (Good i) Auto) ⟨.none, none, []⟩ (post i))
    (h : Reaches exec W programs (World.init s₀) w) : Inv exec W Good Auto post s₀ w := by
  induction h with
  | refl =>
      refine ⟨rfl, ⟨?_, ?_, ?_, List.nodup_nil⟩, ?_, ?_⟩
      · exact fun e he => by cases he
      · exact fun e he => by cases he
      · exact fun e he => by cases he
      · exact fun i c auto log hc => by cases hc
      · exact fun i c p hc => by cases hc
  | tail _ hs ih => exact ih.step hp hs

end Inv

end Clients

end Serial
