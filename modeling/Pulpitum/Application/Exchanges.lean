import Mathlib
import Pulpitum.Application.Tasks

/-!
# Application — Exchanges

What a running worker has asked and been answered.  The steps of a task show which operations were
started and which took effect; the history of its program says what it was told.

* `Recorded.step`: the two fit, step by step.
* `Recorded.of_run`: in every run, the operations started are those the program asked for, and
  **what the program was told without a failure took effect, in that order**.
-/

namespace Pulpitum

/-- The reply is not a failure. -/
def Request.succeeded : (q : Request) → q.Reply → Bool
  | store q, r => Except.isOk (α := q.Value) r
  | archive q, r => Except.isOk (α := q.Value) r

theorem Request.Failed.succeeded {q : Request} {r : q.Reply} (h : q.Failed r) :
    q.succeeded r = false := by
  cases q with
  | store q => obtain ⟨e, rfl⟩ := h; rfl
  | archive q => obtain ⟨e, rfl⟩ := h; rfl

/-- Every operation may fail. -/
theorem Request.exists_failed (q : Request) : ∃ r, q.succeeded r = false := by
  cases q with
  | store q => exact ⟨.error .unavailable, rfl⟩
  | archive q => exact ⟨.error (.other ""), rfl⟩

instance (e : Effect) : Nonempty e.Answer := by
  cases e with
  | call q => exact ⟨q.exists_failed.choose⟩
  | supervise q => exact ⟨.error .unavailable⟩
  | startRenewer => exact ⟨()⟩
  | shutdown => exact ⟨()⟩

namespace History

/-- The operation of an exchange. -/
def request? : (e : Effect) × e.Answer → Option Request
  | ⟨.call q, _⟩ | ⟨.supervise q, _⟩ => some q
  | ⟨.startRenewer .., _⟩ | ⟨.shutdown, _⟩ => none

/-- The operation of an exchange with its reply, if that is not a failure. -/
def effect? : (e : Effect) × e.Answer → Option Task.Label
  | ⟨.call q, r⟩ | ⟨.supervise q, .ok r⟩ => if q.succeeded r then some (.serve q r) else none
  | _ => none

/-- The operations that were asked for. -/
def requests (h : History) : List Request := h.filterMap request?

/-- What was told without a failure. -/
def effects (h : History) : List Task.Label := h.filterMap effect?

theorem requests_snoc (h : History) (x : (e : Effect) × e.Answer) :
    requests (h ++ [x]) = requests h ++ (request? x).toList := by
  rw [requests, List.filterMap_append]
  cases hx : request? x <;> simp [requests, hx]

theorem effects_snoc (h : History) (x : (e : Effect) × e.Answer) :
    effects (h ++ [x]) = effects h ++ (effect? x).toList := by
  rw [effects, List.filterMap_append]
  cases hx : effect? x <;> simp [effects, hx]

end History

variable {α : Type}

/-- The question a waiting worker has put. -/
def Wait.asks {q : Request} : Wait q α → Worker α
  | .called k => .ask (.call q) k
  | .selecting k => .ask (.supervise q) k
  | .polling k => .ask (.supervise q) k
  | .draining k _ => .ask (.supervise q) k

namespace Task

open History (requests effects)

/-- The operations that were started. -/
def started (ls : List Label) : List Request :=
  ls.filterMap fun
    | .start q => some q
    | _ => none

/-- A worker that began with `p` and took the steps `ls`: where it is, and what it has asked and
been answered until then. -/
inductive Recorded (p : Worker α) (ls : List Label) : Phase α → Prop where
  | run {h : History} {p' : Worker α} (ha : p.After h p') (he : (effects h).Sublist ls)
      (hs : started ls = requests h) : Recorded p ls (.run p')
  | awaiting {h : History} {q : Request} {w : Wait q α} {f : Flight q} (ha : p.After h w.asks)
      (he : (effects h).Sublist ls) (hs : started ls = requests h ++ [q])
      (hf : ∀ r, f = .answered r → q.succeeded r = true →
        (effects h ++ [Label.serve q r]).Sublist ls) : Recorded p ls (.awaiting q w f)
  | looked {h : History} {q : Request} {k : Except DurableBucketStoreError q.Reply → Worker α}
      (ha : p.After h (.ask (.supervise q) k)) (he : (effects h).Sublist ls)
      (hs : started ls = requests h) : Recorded p ls (.looked q k)
  | unpolled {h : History} {q : Request} {k : Except DurableBucketStoreError q.Reply → Worker α}
      {e : DurableBucketStoreError} (ha : p.After h (.ask (.supervise q) k))
      (he : (effects h).Sublist ls) (hs : started ls = requests h) :
      Recorded p ls (.unpolled q k e)
  | stopping {h : History} {k : Unit → Worker α} (ha : p.After h (.ask .shutdown k))
      (he : (effects h).Sublist ls) (hs : started ls = requests h) : Recorded p ls (.stopping k)
  | finished {h : History} {a : α} (ha : p.After h (.ret a)) (he : (effects h).Sublist ls)
      (hs : started ls = requests h) : Recorded p ls (.finished a)
  | crashed {h : History} {p' : Worker α} (ha : p.After h p') (he : (effects h).Sublist ls)
      (hs : started ls = requests h) : Recorded p ls .crashed

namespace Recorded

variable {p : Worker α} {ls : List Label} {ph : Phase α}

/-- What was started was asked for, and what was told took effect. -/
theorem heard (h : Recorded p ls ph) :
    ∃ h p', p.After h p' ∧ (effects h).Sublist ls ∧ started ls = requests h := by
  cases h with
  | run ha he hs => exact ⟨_, _, ha, he, hs⟩
  | @awaiting h q w f ha he hs =>
      -- the question that is open may still be answered with a failure
      have unanswered : ∀ (e : Effect) {k : e.Answer → Worker α} (r : e.Answer),
          p.After h (.ask e k) →
          History.request? ⟨e, r⟩ = some q → History.effect? ⟨e, r⟩ = none →
          ∃ h p', p.After h p' ∧ (effects h).Sublist ls ∧ started ls = requests h := by
        intro e k r ha hq hr
        refine ⟨_, _, ha.snoc r, ?_, ?_⟩
        · rw [History.effects_snoc, hr]
          exact (List.append_nil _).symm ▸ he
        · rw [hs, History.requests_snoc, hq]
          rfl
      cases w with
      | called k =>
          obtain ⟨r, hr⟩ := q.exists_failed
          exact unanswered (.call q) r ha rfl (by simp [History.effect?, hr])
      | selecting k => exact unanswered (.supervise q) (.error .unavailable) ha rfl rfl
      | polling k => exact unanswered (.supervise q) (.error .unavailable) ha rfl rfl
      | draining k e => exact unanswered (.supervise q) (.error e) ha rfl rfl
  | looked ha he hs => exact ⟨_, _, ha, he, hs⟩
  | unpolled ha he hs => exact ⟨_, _, ha, he, hs⟩
  | stopping ha he hs => exact ⟨_, _, ha, he, hs⟩
  | finished ha he hs => exact ⟨_, _, ha, he, hs⟩
  | crashed ha he hs => exact ⟨_, _, ha, he, hs⟩

/-- A step that starts nothing and leaves the worker where it is. -/
theorem pass (h : Recorded p ls ph) {l : Label} (hl : started [l] = []) :
    Recorded p (ls ++ [l]) ph := by
  have hsub : ∀ {m : List Label}, m.Sublist ls → m.Sublist (ls ++ [l]) :=
    fun hm => hm.trans (List.sublist_append_left ls [l])
  have hst : started (ls ++ [l]) = started ls := by
    rw [started, List.filterMap_append]
    exact (congrArg (started ls ++ ·) hl).trans (List.append_nil _)
  cases h with
  | run ha he hs => exact .run ha (hsub he) (hst.trans hs)
  | awaiting ha he hs hf =>
      exact .awaiting ha (hsub he) (hst.trans hs) fun r hr ho => hsub (hf r hr ho)
  | looked ha he hs => exact .looked ha (hsub he) (hst.trans hs)
  | unpolled ha he hs => exact .unpolled ha (hsub he) (hst.trans hs)
  | stopping ha he hs => exact .stopping ha (hsub he) (hst.trans hs)
  | finished ha he hs => exact .finished ha (hsub he) (hst.trans hs)
  | crashed ha he hs => exact .crashed ha (hsub he) (hst.trans hs)

/-- The worker polls an operation. -/
theorem poll {h : History} {q : Request} {w : Wait q α} (ha : p.After h w.asks)
    (he : (effects h).Sublist ls) (hs : started ls = requests h) :
    Recorded p (ls ++ [.start q]) (.awaiting q w .pending) := by
  refine .awaiting ha (he.trans (List.sublist_append_left ..)) ?_ fun r hr => by cases hr
  rw [started, List.filterMap_append, ← hs]
  rfl

/-- The worker is told an answer, and goes on. -/
theorem told {h : History} {e : Effect} {k : e.Answer → Worker α} {r : e.Answer}
    (ha : p.After h (.ask e k)) (he : (effects (h ++ [⟨e, r⟩])).Sublist ls)
    (hs : started ls = requests (h ++ [⟨e, r⟩])) : Recorded p (ls ++ [.silent]) (.run (k r)) :=
  pass (.run (ha.snoc r) he hs) rfl

/-- **One step of a worker or of its renewer** fits what the worker has asked and been answered. -/
theorem step {t t' : Task α} {l : Label} (h : Recorded p ls t.phase) (hs : Step t l t') :
    Recorded p (ls ++ [l]) t'.phase := by
  cases hs with
  | call =>
      cases h with
      | run ha he hs => exact poll ha he hs
  | @called q k a =>
      cases h with
      | @awaiting h _ _ _ ha he hs hf =>
          refine told ha ?_ (by rw [hs, History.requests_snoc]; rfl)
          rw [History.effects_snoc]
          by_cases ho : q.succeeded a = true
          · simpa [History.effect?, ho] using hf a rfl ho
          · simpa [History.effect?, ho] using he
  | look =>
      cases h with
      | run ha he hs => exact pass (.looked ha he hs) rfl
  | select =>
      cases h with
      | looked ha he hs => exact poll ha he hs
  | @park q k =>
      cases h with
      | awaiting ha he hs hf => exact pass (.awaiting (w := .selecting k) ha he hs hf) rfl
  | @poll q k =>
      cases h with
      | awaiting ha he hs hf => exact pass (.awaiting (w := .polling k) ha he hs hf) rfl
  | @selected q k a =>
      cases h with
      | @awaiting h _ _ _ ha he hs hf =>
          refine told (e := .supervise q) (r := .ok a) ha ?_
            (by rw [hs, History.requests_snoc]; rfl)
          rw [History.effects_snoc]
          by_cases ho : q.succeeded a = true
          · simpa [History.effect?, ho] using hf a rfl ho
          · simpa [History.effect?, ho] using he
  | @select_failed q k g e =>
      cases h with
      | awaiting ha he hs hf =>
          exact pass (.awaiting (w := .draining k e) ha he hs hf) rfl
  | first_failed =>
      cases h with
      | run ha he hs => exact pass (.unpolled ha he hs) rfl
  | drain =>
      cases h with
      | unpolled ha he hs => exact poll ha he hs
  | @drained q k e a =>
      cases h with
      | awaiting ha he hs =>
          refine told (e := .supervise q) (r := .error e) ha ?_
            (by rw [hs, History.requests_snoc]; rfl)
          rw [History.effects_snoc]
          simpa [History.effect?] using he
  | startRenewer =>
      cases h with
      | run ha he hs =>
          refine pass (.run (ha.snoc ()) ?_ ?_) rfl
          · rw [History.effects_snoc]
            simpa [History.effect?] using he
          · rw [hs, History.requests_snoc]
            exact (List.append_nil _).symm
  | shutdown =>
      cases h with
      | run ha he hs => exact pass (.stopping ha he hs) rfl
  | stopped =>
      cases h with
      | stopping ha he hs =>
          refine told (e := .shutdown) (r := ()) ha ?_ ?_
          · rw [History.effects_snoc]
            simpa [History.effect?] using he
          · rw [hs, History.requests_snoc]
            exact (List.append_nil _).symm
  | finish =>
      cases h with
      | run ha he hs => exact pass (.finished ha he hs) rfl
  | @serve q w a =>
      cases h with
      | @awaiting h _ _ _ ha he hs =>
          refine .awaiting ha (he.trans (List.sublist_append_left ..)) ?_ fun r hr _ => ?_
          · rw [started, List.filterMap_append]
            exact (List.append_nil _).trans hs
          · cases hr
            exact he.append (List.Sublist.refl _)
  | @abandon q w a _ _ _ hfail =>
      cases h with
      | awaiting ha he hs =>
          refine pass (.awaiting ha he hs fun r hr ho => ?_) rfl
          cases hr
          cases hfail.succeeded.symm.trans ho
  | @lose q w a a' _ _ _ hfail =>
      cases h with
      | awaiting ha he hs =>
          refine pass (.awaiting ha he hs fun r hr ho => ?_) rfl
          cases hr
          cases hfail.succeeded.symm.trans ho
  | crash | crash_abandon =>
      obtain ⟨h', p', ha, he, hs⟩ := h.heard
      exact pass (.crashed ha he hs) rfl
  | renew | renew_stop | renew_serve | renew_abandon | renew_lose | renewed | renew_failed =>
      exact pass h rfl

/-- **What a worker was told without a failure took effect**, in every run. -/
theorem of_run {t : Task α} (h : Run Step (Task.init p) ls t) : Recorded p ls t.phase :=
  Run.rec_last (P := fun ls t => Recorded p ls t.phase) (.run .refl (.refl _) rfl)
    (fun _ _ _ _ _ => step) h

/-- What a finished worker was told. -/
theorem ends {a : α} {post : History → α → Prop} (h : Recorded p ls (.finished a))
    (hp : p.Ends post) : ∃ h, post h a ∧ (effects h).Sublist ls := by
  cases h with
  | @finished h _ ha he =>
      have hpost : post (h ++ []) a := hp.after ha
      rw [List.append_nil] at hpost
      exact ⟨h, hpost, he⟩

/-- What was started and told begins a way in which the program can end. -/
theorem begins {post : History → α → Prop} (h : Recorded p ls ph) (hp : p.Ends post) :
    ∃ h l a, post (h ++ l) a ∧ (effects h).Sublist ls ∧ started ls = requests h := by
  obtain ⟨h, p', ha, he, hs⟩ := h.heard
  obtain ⟨l, a, hl⟩ := (hp.after ha).can_end
  exact ⟨h, l, a, hl, he, hs⟩

end Recorded

end Task

end Pulpitum
