import Mathlib
import Pulpitum.Adapters.CockroachCalls
import Pulpitum.Adapters.CockroachPool

/-!
# Adapters — Cockroach sessions

The calls of the store on one pool, in any number and any interleaving, with any answers of the
server.  The future of a call can be dropped while it awaits anything; its connection is then
dropped as it is marked.

For each server session, what its client knows of transactions is logged: that `BEGIN` was sent,
and that a `COMMIT` or `ROLLBACK` was acknowledged.

* `Settled`: every call follows the protocol of a session on the connection it holds.
* `idle_settled`: no idle connection may have an open transaction.
-/

namespace Pulpitum
namespace Cockroach

open CockroachPool

/-! ### The log of a session -/

/-- What a client knows of the transactions of its session. -/
inductive Note where
  /-- `BEGIN` was sent. -/
  | begun
  /-- `COMMIT` or `ROLLBACK` was acknowledged. -/
  | ended
deriving DecidableEq

/-- A `BEGIN` was sent and not followed by an acknowledged `COMMIT` or `ROLLBACK`. -/
def PossiblyOpen (log : List Note) : Prop := ∃ l l', log = l ++ Note.begun :: l' ∧ Note.ended ∉ l'

theorem not_possiblyOpen_nil : ¬ PossiblyOpen [] := by
  rintro ⟨l, l', h, -⟩
  simp at h

theorem not_possiblyOpen_ended (log : List Note) : ¬ PossiblyOpen (log ++ [.ended]) := by
  rintro ⟨l, l', h, hl⟩
  rcases l'.eq_nil_or_concat with rfl | ⟨l'', x, rfl⟩
  · cases (List.append_inj' h rfl).2
  · rw [List.concat_eq_append, ← List.cons_append, ← List.append_assoc] at h
    cases (List.append_inj' h rfl).2
    simp at hl

/-- What is noted when `sql` is sent. -/
def Sql.sent : Sql → List Note
  | begin_ => [.begun]
  | _ => []

/-- What is noted when `sql` is answered. -/
def Sql.answered : Sql → Bool → List Note
  | commit, true | rollback, true => [.ended]
  | _, _ => []

/-! ### Callers -/

/-- What a call does: it runs, or awaits the answer to what it sent. -/
inductive Activity (R : Type) where
  | running (p : Conn R Unit)
  | awaiting (q : Ask) (k : q.Answer R → Conn R Unit)

/-- A call, and where it is with the pool. -/
structure Caller (R : Type) where
  activity : Activity R
  checkout : Checkout

/-- The logs of the sessions, by client. -/
abbrev Logs := ClientId → List Note

/-- Note something of a session. -/
def Logs.add (log : Logs) (c : ClientId) (notes : List Note) : Logs :=
  Function.update log c (log c ++ notes)

theorem Logs.add_self (log : Logs) (c : ClientId) (notes : List Note) :
    log.add c notes c = log c ++ notes := Function.update_self ..

theorem Logs.add_of_ne (log : Logs) {c c' : ClientId} (notes : List Note) (h : c' ≠ c) :
    log.add c notes c' = log c' := Function.update_of_ne h ..

/-- Not amid an operation of the pool. -/
def AtRest : Checkout → Prop
  | .outside | .holding _ _ => True
  | _ => False

namespace Caller

variable {R : Type}

open Activity

/-- One step of a call. -/
inductive Step : PoolInner → Logs → Caller R → PoolInner → Logs → Caller R → Prop where
  | pool {p p' log act t t'} (h : Checkout.Step p t .quiet p' t') :
      Step p log ⟨act, t⟩ p' log ⟨act, t'⟩
  -- `acquire`
  | acquire {p p' log k t t'} (h : Checkout.Step p t .enter p' t') :
      Step p log ⟨running (.ask .acquire k), t⟩ p' log ⟨running (.ask .acquire k), t'⟩
  | acquired {p p' log k t t'} (h : Checkout.Step p t .acquired p' t') :
      Step p log ⟨running (.ask .acquire k), t⟩ p' log ⟨running (k (.ok ())), t'⟩
  | failed {p p' log k t t' e} (h : Checkout.Step p t .failed p' t') :
      Step p log ⟨running (.ask .acquire k), t⟩ p' log ⟨running (k (.error e)), t'⟩
  | cancelled {p p' log k t t'} (h : Checkout.Step p t .cancelled p' t') :
      Step p log ⟨running (.ask .acquire k), t⟩ p' log ⟨running (.ret ()), t'⟩
  -- the connection
  | markUncertain {p p' log k t t'} (h : Checkout.Step p t (.mark false) p' t') :
      Step p log ⟨running (.ask .markUncertain k), t⟩ p' log ⟨running (k ()), t'⟩
  | markReusable {p p' log k t t'} (h : Checkout.Step p t (.mark true) p' t') :
      Step p log ⟨running (.ask .markReusable k), t⟩ p' log ⟨running (k ()), t'⟩
  | send {p log q k c r sql} (h : q.sql = some sql) :
      Step p log ⟨running (.ask q k), .holding c r⟩ p (log.add c sql.sent)
        ⟨awaiting q k, .holding c r⟩
  | answer {p log q k c r sql} {a : q.Answer R} (h : q.sql = some sql) :
      Step p log ⟨awaiting q k, .holding c r⟩ p (log.add c (sql.answered (q.Acknowledged a)))
        ⟨running (k a), .holding c r⟩
  | drop {p p' log k t t'} (h : Checkout.Step p t .drop p' t') :
      Step p log ⟨running (.ask .dropConnection k), t⟩ p' log ⟨running (k ()), t'⟩
  | sleep {p log k t} (h : AtRest t) :
      Step p log ⟨running (.ask .sleep k), t⟩ p log ⟨running (k ()), t⟩
  -- The future is dropped while it awaits, or the call panics; then its connection is dropped.
  | stop {p log act t} (h : AtRest t) : Step p log ⟨act, t⟩ p log ⟨running (.ret ()), t⟩
  | leave {p p' log t t'} (h : Checkout.Step p t .drop p' t') :
      Step p log ⟨running (.ret ()), t⟩ p' log ⟨running (.ret ()), t'⟩

end Caller

/-- The pool, `prewarm`, the calls, and the logs of the sessions. -/
structure Sessions (R : Type) where
  inner : PoolInner
  prewarm : Prewarm
  callers : List (Caller R)
  log : Logs

namespace Sessions

variable {R : Type}

/-- The pool, with the callers as its tasks. -/
def pool (s : Sessions R) : Pool := ⟨s.inner, s.prewarm, s.callers.map Caller.checkout⟩

/-- One step. -/
inductive Step (D : Decoding R) : Sessions R → Sessions R → Prop where
  | call {α : Type} {q : Conn R α} {p w as log} (h : IsCall D q) :
      Step D ⟨p, w, as, log⟩ ⟨p, w, ⟨.running (q >>= fun _ => .ret ()), .outside⟩ :: as, log⟩
  | caller {p p' l l' a a' log log'} (h : Caller.Step p log a p' log' a') :
      Step D ⟨p, .finished, l ++ a :: l', log⟩ ⟨p', .finished, l ++ a' :: l', log'⟩
  | prewarm {p p' w w' as log} (h : Prewarm.Step p w p' w') :
      Step D ⟨p, w, as, log⟩ ⟨p', w', as, log⟩
  | driver {p p' w as log} (h : Driver.Step (pool ⟨p, w, as, log⟩) p') :
      Step D ⟨p, w, as, log⟩ ⟨p', w, as, log⟩

/-- A new pool with no calls, over whose connections no `BEGIN` was sent. -/
def init (P : Pool) : Sessions R := ⟨P.inner, P.prewarm, [], fun _ => []⟩

/-- The states that any interleaving of calls reaches. -/
def Reached (D : Decoding R) (s : Sessions R) : Prop :=
  ∃ P : Pool, P.Made ∧ Relation.ReflTransGen (Step D) (init P) s

end Sessions

/-! ### What one call preserves -/

/-- The sessions of the clients in hand are known to have no open transaction: the client was
idle, is new, or is about to be idle. -/
def Clean (log : Logs) : Checkout → Prop
  | .taken c | .testing c | .discarding c | .registering c | .returning c true =>
      ¬ PossiblyOpen (log c)
  | _ => True

/-- What is left of the call follows the protocol from `s`. -/
def Activity.Follows {R : Type} (s : Session) : Activity R → Prop
  | running p => p.Follows (sessionProtocol R) s fun _ _ => True
  | awaiting q k => (Prog.ask q k).Follows (sessionProtocol R) s fun _ _ => True

/-- The call follows the protocol, and its connection is marked uncertain as long as a
transaction may be open. -/
def Caller.Sound {R : Type} (log : Logs) (a : Caller R) : Prop :=
  match a.checkout with
  | .holding c r => ∃ b : Bool, (PossiblyOpen (log c) → b = true) ∧ (r = true → b = false) ∧
      a.activity.Follows (.held r b)
  | t => Clean log t ∧ a.activity.Follows .none

variable {R : Type} {p p' : PoolInner} {t t' : Checkout} {log log' : Logs}

/-- Not holding a connection. -/
def Bare : Checkout → Prop
  | .holding _ _ => False
  | _ => True

theorem Caller.sound_of_bare {act : Activity R} (ht : Bare t) :
    Caller.Sound log ⟨act, t⟩ ↔ Clean log t ∧ act.Follows .none := by
  cases t <;> first | exact Iff.rfl | exact ht.elim

/-- A step inside the pool neither starts nor ends with a connection in hand, and keeps sessions
clean. -/
theorem quiet_step (h : Checkout.Step p t .quiet p' t')
    (hidle : ∀ c, p.stateOf c = .idle → ¬ PossiblyOpen (log c)) (hnew : log p.created = []) :
    Bare t ∧ Bare t' ∧ (Clean log t → Clean log t') := by
  cases h with
  | take hi => exact ⟨trivial, trivial, fun _ => hidle _ hi⟩
  | connect =>
      refine ⟨trivial, trivial, fun _ => ?_⟩
      simp only [Clean, hnew]
      exact not_possiblyOpen_nil
  | _ => exact ⟨trivial, trivial, fun h => by trivial⟩

/-- What is sent and answered over a session, as the protocol has it. -/
theorem after_held {q : Ask} {sql : Sql} (h : q.sql = some sql) (r b : Bool) (a : q.Answer R) :
    (sessionProtocol R).after (.held r b) q a =
      .held r (sql.begunAfter (q.Acknowledged a) b) := by
  cases q <;> cases h <;> rfl

/-- A transaction is begun only over a connection that is marked uncertain. -/
theorem reusable_of_may {q : Ask} {sql : Sql} (h : q.sql = some sql) {r b : Bool}
    (hm : (sessionProtocol R).may (.held r b) q) : sql = .begin_ → r = false := by
  rintro rfl
  cases q <;> cases h <;> (obtain ⟨_, hb⟩ := hm; cases hb; rfl)

/-- A transaction that may be open after an answer is one the protocol knows of. -/
theorem begunAfter_of_possiblyOpen {l : List Note} {sql : Sql} {acknowledged b : Bool}
    (hb : PossiblyOpen l → b = true) (ho : PossiblyOpen (l ++ sql.answered acknowledged)) :
    sql.begunAfter acknowledged b = true := by
  cases sql with
  | begin_ => rfl
  | statement s => exact hb (by simpa [Sql.answered] using ho)
  | commit | rollback =>
      cases acknowledged with
      | true => exact absurd ho (not_possiblyOpen_ended l)
      | false => simpa [Sql.begunAfter] using hb (by simpa [Sql.answered] using ho)

/-- A connection that is dropped to be reused has no open transaction. -/
theorem clean_returning {c : ClientId} {r b : Bool} (hb : PossiblyOpen (log c) → b = true)
    (hr : r = true → b = false) : Clean log (.returning c r) := by
  cases r with
  | false => trivial
  | true => exact fun ho => absurd (hb ho) (by simp [hr rfl])

/-- A step of a call keeps it sound. -/
theorem Caller.Step.sound {a a' : Caller R} (h : Caller.Step p log a p' log' a')
    (hs : a.Sound log) (hidle : ∀ c, p.stateOf c = .idle → ¬ PossiblyOpen (log c))
    (hnew : log p.created = []) : a'.Sound log' := by
  cases h with
  | pool hq =>
      obtain ⟨hb, hb', hclean⟩ := quiet_step hq hidle hnew
      rw [sound_of_bare hb] at hs
      exact (sound_of_bare hb').mpr ⟨hclean hs.1, hs.2⟩
  | acquire hq => cases hq; exact ⟨trivial, hs.2⟩
  | acquired hq =>
      cases hq with
      | usable _ | register =>
          exact ⟨false, fun ho => absurd ho hs.1, fun _ => rfl, hs.2.2 (.ok ())⟩
  | failed hq =>
      cases hq with
      | expired | refused => exact ⟨trivial, hs.2.2 (.error _)⟩
  | cancelled hq =>
      cases hq with
      | cancel_wait | cancel_connect => exact ⟨trivial, trivial⟩
  | markUncertain hq =>
      cases hq
      obtain ⟨b, hb, -, hf⟩ := hs
      exact ⟨b, hb, nofun, hf.2 ()⟩
  | markReusable hq =>
      cases hq
      obtain ⟨b, hb, -, hf⟩ := hs
      obtain ⟨⟨_, hm⟩, hk⟩ := hf
      cases hm
      exact ⟨false, hb, fun _ => rfl, hk ()⟩
  | @send _ q k c r sql hq =>
      obtain ⟨b, hb, hr, hm, hk⟩ := hs
      by_cases hsql : sql = .begin_
      · have hr' := reusable_of_may hq hm hsql
        subst hsql hr'
        refine ⟨true, fun _ => rfl, nofun, ?_, fun a => ?_⟩
        · cases q <;> cases hq <;> exact ⟨true, rfl⟩
        · have hka := hk a
          rw [after_held hq] at hka ⊢
          exact hka
      · have hsent : sql.sent = [] := by cases sql <;> first | rfl | exact absurd rfl hsql
        refine ⟨b, fun ho => hb ?_, hr, hm, hk⟩
        rwa [Logs.add_self, hsent, List.append_nil] at ho
  | @answer _ q k c r sql a hq =>
      obtain ⟨b, hb, hr, hm, hk⟩ := hs
      refine ⟨sql.begunAfter (q.Acknowledged a) b, fun ho => ?_, fun hrt => ?_, ?_⟩
      · rw [Logs.add_self] at ho
        exact begunAfter_of_possiblyOpen hb ho
      · have hne : sql ≠ .begin_ := fun h => by simp [reusable_of_may hq hm h] at hrt
        cases sql <;> simp_all [Sql.begunAfter]
      · exact after_held hq r b a ▸ hk a
  | drop hq =>
      cases hq
      obtain ⟨b, hb, hr, -, hk⟩ := hs
      exact ⟨clean_returning hb hr, hk ()⟩
  | @sleep _ k t ht =>
      cases t with
      | outside => exact ⟨trivial, hs.2.2 ()⟩
      | holding c r =>
          obtain ⟨b, hb, hr, -, hk⟩ := hs
          exact ⟨b, hb, hr, hk ()⟩
      | _ => exact ht.elim
  | @stop _ act t ht =>
      cases t with
      | outside => exact ⟨trivial, trivial⟩
      | holding c r =>
          obtain ⟨b, hb, hr, -⟩ := hs
          exact ⟨b, hb, hr, trivial⟩
      | _ => exact ht.elim
  | leave hq =>
      cases hq
      obtain ⟨b, hb, hr, -⟩ := hs
      exact ⟨clean_returning hb hr, trivial⟩

/-- A step of a call is a step of its checkout, or none of the pool. -/
theorem Caller.Step.checkout {a a' : Caller R} (h : Caller.Step p log a p' log' a') :
    (∃ e, Checkout.Step p a.checkout e p' a'.checkout) ∨ p' = p ∧ a'.checkout = a.checkout := by
  cases h with
  | send _ | answer _ | sleep _ | stop _ => exact .inr ⟨rfl, rfl⟩
  | pool h | acquire h | acquired h | failed h | cancelled h | markUncertain h | markReusable h
  | drop h | leave h => exact .inl ⟨_, h⟩

/-- A call writes to the log of the session whose connection it holds, and to no other. -/
theorem Caller.Step.log_eq {a a' : Caller R} (h : Caller.Step p log a p' log' a') {c : ClientId}
    (hc : ∀ r, a.checkout ≠ .holding c r) : log' c = log c := by
  cases h with
  | @send _ _ _ d r _ _ | @answer _ _ _ d r _ _ _ =>
      exact Logs.add_of_ne _ _ fun hcd => hc r (by rw [hcd])
  | _ => rfl

/-- What a call has in hand stays sound under the steps of others. -/
theorem Caller.Sound.congr {a : Caller R} (h : a.Sound log)
    (hlog : ∀ c, a.checkout.client = some c → log' c = log c) : a.Sound log' := by
  obtain ⟨act, t⟩ := a
  cases t with
  | holding c r =>
      obtain ⟨b, hb, hr, hf⟩ := h
      exact ⟨b, hlog c rfl ▸ hb, hr, hf⟩
  | returning c r =>
      cases r with
      | false => exact h
      | true => exact ⟨by simpa only [Clean, hlog c rfl] using h.1, h.2⟩
  | taken c | testing c | discarding c | registering c =>
      exact ⟨by simpa only [Clean, hlog c rfl] using h.1, h.2⟩
  | _ => exact h

/-- A client becomes idle only when its connection is dropped to be reused. -/
theorem idle_of_step {e : Event} (h : Checkout.Step p t e p' t') {c : ClientId}
    (hc : p'.stateOf c = .idle) : p.stateOf c = .idle ∨ t = .returning c true := by
  cases h with
  | @take d _ | @discard d _ | @close d _ =>
      by_cases hcd : c = d
      · subst hcd; simp at hc
      · exact .inl (PoolInner.stateOf_setState_of_ne hcd ▸ hc)
  | @give_back d _ =>
      by_cases hcd : c = d
      · exact .inr (by rw [hcd])
      · exact .inl (PoolInner.stateOf_setState_of_ne hcd ▸ hc)
  | connect =>
      by_cases hcd : c = p.created
      · subst hcd; simp at hc
      · exact .inl (PoolInner.stateOf_create_of_ne hcd ▸ hc)
  | register => exact .inl (by simpa using hc)
  | _ => exact .inl hc

/-- `prewarm` makes no client idle but the one it has in hand. -/
theorem idle_of_prewarm {w w' : Prewarm} (h : Prewarm.Step p w p' w') {c : ClientId}
    (hc : p'.stateOf c = .idle) : p.stateOf c = .idle ∨ w.client = some c := by
  cases h with
  | connect =>
      by_cases hcd : c = p.created
      · subst hcd; simp at hc
      · exact .inl (PoolInner.stateOf_create_of_ne hcd ▸ hc)
  | register => exact .inl (by simpa using hc)
  | @store n d =>
      by_cases hcd : c = d
      · exact .inr (by rw [hcd]; rfl)
      · exact .inl (PoolInner.stateOf_setState_of_ne hcd ▸ hc)
  | _ => exact .inl hc

theorem client_of_prewarm {w w' : Prewarm} (h : Prewarm.Step p w p' w') {c : ClientId}
    (hc : w'.client = some c) : w.client = some c ∨ c = p.created := by
  cases h with
  | connect => cases hc; exact .inr rfl
  | _ => first | exact .inl hc | cases hc

/-! ### What every run preserves -/

/-- What holds in every state. -/
structure Settled (s : Sessions R) : Prop where
  pool : Inv s.pool
  idle : ∀ c, s.inner.stateOf c = .idle → ¬ PossiblyOpen (s.log c)
  new : ∀ c, s.inner.created ≤ c → s.log c = []
  prewarm : ∀ c, s.prewarm.client = some c → ¬ PossiblyOpen (s.log c)
  callers : ∀ a ∈ s.callers, a.Sound s.log

namespace Settled

/-- A step of a call. -/
theorem caller {l l' : List (Caller R)} {a a' : Caller R}
    (h : Settled ⟨p, .finished, l ++ a :: l', log⟩) (hs : Caller.Step p log a p' log' a') :
    Settled ⟨p', .finished, l ++ a' :: l', log'⟩ := by
  have ha : a ∈ l ++ a :: l' := by simp
  have hmem : a.checkout ∈ (Sessions.pool ⟨p, .finished, l ++ a :: l', log⟩).tasks :=
    List.mem_map_of_mem ha
  have hfits := h.pool.tasks _ hmem
  have hpool : Inv (Sessions.pool ⟨p', .finished, l ++ a' :: l', log'⟩) := by
    have hi := h.pool
    simp only [Sessions.pool, List.map_append, List.map_cons] at hi ⊢
    rcases hs.checkout with ⟨e, hc⟩ | ⟨rfl, hc⟩
    · exact hi.task hc
    · exact hc ▸ hi
  -- A client that is idle, or not created, is not one whose connection is held.
  have hidle : ∀ c, p.stateOf c = .idle → ¬ PossiblyOpen (log' c) := by
    intro c hc
    rw [hs.log_eq fun r hr => by rw [hr] at hfits; exact hfits hc]
    exact h.idle c hc
  refine ⟨hpool, fun c hc => ?_, fun c hc => ?_, nofun, fun u hu => ?_⟩
  · rcases hs.checkout with ⟨e, hstep⟩ | ⟨rfl, -⟩
    · rcases idle_of_step hstep hc with hc | hret
      · exact hidle c hc
      · obtain ⟨act, t⟩ := a
        cases hret
        have hlog : log' c = log c := hs.log_eq (by simp)
        have hclean : ¬ PossiblyOpen (log c) := (h.callers _ ha).1
        rwa [← hlog] at hclean
    · exact hidle c hc
  · have hle : p.created ≤ p'.created := by
      rcases hs.checkout with ⟨e, hstep⟩ | ⟨rfl, -⟩
      · exact hstep.created_le
      · exact le_rfl
    have hlog : log' c = log c := hs.log_eq fun r hr =>
      absurd (hle.trans hc) (not_le.mpr (h.pool.created c (.inr (.inr ⟨_, hmem, by rw [hr]; rfl⟩))))
    exact hlog.trans (h.new c (hle.trans hc))
  · rcases mem_replace hu with rfl | hu
    · exact hs.sound (h.callers a ha) h.idle (h.new p.created le_rfl)
    · refine (h.callers u (mem_insert_of_mem hu)).congr fun c hc => hs.log_eq fun r hr => ?_
      refine h.pool.client_ne (l.map Caller.checkout) (l'.map Caller.checkout) (t := a.checkout)
        ?_ ?_ ?_ hc
      · simp [Sessions.pool]
      · rw [hr]; rfl
      · rw [← List.map_append]; exact List.mem_map_of_mem hu

/-- **What a step preserves.** -/
theorem step {D : Decoding R} {s s' : Sessions R} (h : Settled s) (hs : Sessions.Step D s s') :
    Settled s' := by
  cases hs with
  | call hcall =>
      refine ⟨h.pool.step .spawn, h.idle, h.new, h.prewarm, ?_⟩
      refine List.forall_mem_cons.mpr ⟨⟨trivial, ?_⟩, h.callers⟩
      exact .bind (hcall.follows.imp fun _ _ _ => trivial)
  | caller hs => exact h.caller hs
  | @prewarm p p' w w' as log hw =>
      refine ⟨h.pool.step (.prewarm hw), fun c hc => ?_, fun c hc => ?_, fun c hc => ?_, h.callers⟩
      · rcases idle_of_prewarm hw hc with hc | hc
        · exact h.idle c hc
        · exact h.prewarm c hc
      · exact h.new c (le_trans (by cases hw <;> first | exact le_rfl | exact Nat.le_succ _) hc)
      · rcases client_of_prewarm hw hc with hc | rfl
        · exact h.prewarm c hc
        · have hlog : log p.created = [] := h.new _ le_rfl
          have hclean := not_possiblyOpen_nil
          rwa [← hlog] at hclean
  | @driver p p' w as log hd =>
      refine ⟨h.pool.step (.driver hd), fun c hc => ?_, fun c hc => ?_, h.prewarm, h.callers⟩
      · rcases hd.closes c with hs | hs
        · exact h.idle c (hs ▸ hc)
        · exact nomatch hs.symm.trans hc
      · exact h.new c (by cases hd <;> exact hc)

/-- What holds of a new pool. -/
theorem made {P : Pool} (h : P.Made) : Settled (Sessions.init P : Sessions R) := by
  have htasks : P.tasks = [] := by cases h <;> rfl
  have hpool : Sessions.pool (R := R) (Sessions.init P) = P := by
    obtain ⟨inner, prewarm, tasks⟩ := P
    obtain rfl : tasks = [] := htasks
    rfl
  refine ⟨?_, fun c _ => not_possiblyOpen_nil, fun c _ => rfl, fun c _ => not_possiblyOpen_nil, ?_⟩
  · rw [hpool]
    exact .made h
  · simp [Sessions.init]

end Settled

/-- The invariant holds along every run. -/
theorem settled_of_reached {D : Decoding R} {s : Sessions R} (h : s.Reached D) : Settled s := by
  obtain ⟨P, hm, hs⟩ := h
  induction hs with
  | refl => exact .made hm
  | tail _ hs ih => exact ih.step hs

/-- **No idle connection carries an open transaction.**  In every state that any interleaving of
calls reaches, whatever the server answers and wherever calls are dropped, a client in the state
`IDLE` is not one over which a `BEGIN` was sent and not followed by an acknowledged `COMMIT` or
`ROLLBACK`. -/
theorem idle_settled (D : Decoding R) {s : Sessions R} (h : s.Reached D) {c : ClientId}
    (hc : s.inner.stateOf c = .idle) : ¬ PossiblyOpen (s.log c) :=
  (settled_of_reached h).idle c hc

namespace Sample

/-- Answers without rows. -/
def decoding : Decoding Unit where
  showPg _ := ""
  showStore _ := ""
  appliedMigrations _ := []
  plan _ := .ok []
  columnNames _ := []
  state _ := .ok .hot
  work _ := .ok []
  read _ := .ok (.hot [])

end Sample

/-- A step of the only call. -/
theorem Sessions.Step.only {D : Decoding R} {a a' : Caller R}
    (h : Caller.Step p log a p' log' a') :
    Sessions.Step D ⟨p, .finished, [a], log⟩ ⟨p', .finished, [a'], log'⟩ :=
  @Sessions.Step.caller R D p p' [] [] a a' log log' h

/-- An acknowledgement, in time. -/
theorem Caller.Step.acknowledge {sql : Sql} (rows : R) {c : ClientId} {r : Bool}
    {k : Option (Except PgError R) → Conn R Unit} :
    Caller.Step p log ⟨.awaiting (.sendWithin sql) k, .holding c r⟩ p
      (log.add c (sql.answered true)) ⟨.running (k (some (.ok rows))), .holding c r⟩ :=
  @Caller.Step.answer R p log (.sendWithin sql) k c r sql (some (.ok rows)) rfl

/-- A run in which the one connection of a pool has carried a transaction and is idle again. -/
theorem idle_settled_of_transaction :
    ∃ s : Sessions Unit, s.Reached Sample.decoding ∧ s.inner.stateOf 0 = .idle ∧
      s.log 0 = [.begun, .ended] ∧ ¬ PossiblyOpen (s.log 0) := by
  have hcall : Relation.ReflTransGen (Sessions.Step Sample.decoding)
      (Sessions.init (Pool.fromClient false)) _ :=
    .single (.call (.transaction (α := Unit) (.ret (.ok ()))))
  have hpermit := ((hcall.tail (.only (.acquire .enter))).tail
    (.only (.pool (.grant rfl)))).tail (.only (.pool .stop_waiting))
  have hpopped := ((hpermit.tail (.only (.pool .use))).tail
    (.only (.pool (.lock rfl)))).tail (.only (.pool (.pop rfl)))
  have hheld := ((hpopped.tail (.only (.pool (.take rfl)))).tail
    (.only (.pool .uncount))).tail (.only (.acquired (.usable rfl)))
  have hbegun := ((hheld.tail (.only (.markUncertain .mark))).tail
    (.only (.send rfl))).tail (.only (.acknowledge ()))
  have hended := ((hbegun.tail (.only (.send rfl))).tail
    (.only (.acknowledge ()))).tail (.only (.markReusable .mark))
  have hidle := (hended.tail (.only (.drop .drop))).tail (.only (.pool (.give_back rfl)))
  have hreached : Sessions.Reached Sample.decoding _ := ⟨_, .fromClient, hidle⟩
  exact ⟨_, hreached, rfl, rfl, idle_settled _ hreached rfl⟩

end Cockroach
end Pulpitum
