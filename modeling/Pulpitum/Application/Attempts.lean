import Mathlib
import Pulpitum.Application.Pagination

/-!
# Application — Attempts

A client that pages through a query over stores whose reads may fail: no connection is to be had,
a statement or a request is refused, an answer is lost.  A read that fails changes nothing in the
stores, and fails its page once it is joined; the client may then ask for the page again.

* `Ok.refuse`, `Ok.retry`: what a read that fails and a page asked for again preserve.
* `Ok.withstands`: **what the client is given is in order and without duplicates whatever fails**,
  complete once it is done, and a page fails only if a read did.
-/

namespace Pulpitum
namespace Scan

open Cutover (World)

variable {S : Services}

/-- Who takes a step, where reads may fail. -/
inductive Turn where
  | move (party : Party)
  /-- A read of the client fails. -/
  | refused
  /-- The client asks for a page again that failed. -/
  | retried
deriving DecidableEq

/-- One step of the client or of anyone else, where any read of the client may fail, with any
error. -/
inductive Attempt (S : Services) (Good : BucketId → Prop) (table : DurableTable) (query : Query) :
    System S.State × Scan → Turn → System S.State × Scan → Prop where
  | move {x y : System S.State × Scan} {party : Party} (h : Move S Good table query x party y) :
      Attempt S Good table query x (.move party) y
  | refuse {s pages after waiting l l' result b} {q : Request}
      {k : q.Reply → Worker (Except DurableTableError (List Record))} {r : q.Reply}
      (h : q.Failed r) :
      Attempt S Good table query
        (s, ⟨pages, after, .reading waiting (l ++ ⟨b, .ask (.call q) k⟩ :: l') result⟩) .refused
        (s, ⟨pages, after, .reading waiting (l ++ ⟨b, k r⟩ :: l') result⟩)
  | retry {s pages after e} :
      Attempt S Good table query (s, ⟨pages, after, .failed e⟩) .retried
        (s, ⟨pages, after, .between⟩)

/-- What a client is given whose reads may fail, over the run `l` from the state `s₀` to the state
`s`. -/
structure Withstands (Good : BucketId → Prop) (table : DurableTable) (query : Query)
    (s₀ : System S.State) (l : List Turn) (s : System S.State) (scan : Scan) : Prop
    extends Given table query s₀ s scan where
  /-- No page panics, and none fails unless a read did. -/
  served : scan.stage ≠ .panicked ∧ (.refused ∉ l → ∀ e, scan.stage ≠ .failed e)
  /-- A client that is not done can go on, or ask again. -/
  progress : scan.stage ≠ .finished → ∃ turn x, turn ∈ [Turn.move .client, .retried] ∧
    Attempt S Good table query (s, scan) turn x
  /-- The client takes boundedly many steps, if there are boundedly many appends and it asks again
  boundedly often. -/
  bounded : l.count (.move .client) + l.count .refused ≤
    (s.appenders.length + 1 + l.count .retried) *
      (3 * ((table.definition.bucketsForRange query.partitionKey query.range).getD []).length + 2)

variable {Err Err' : Prop} {query : Query} {buckets : List BucketId}
  {base : BucketId → List Record} {w : World BucketId Record String} {table : DurableTable}
  {pages : List (List Record)} {after : Option Cursor} {waiting : List BucketId}
  {l l' : List BucketRead} {result : List Record} {b : BucketId}

theorem ReadOk.mono {read : BucketRead} (himp : Err → Err')
    (h : ReadOk Err query base w after read) : ReadOk Err' query base w after read := by
  cases h with
  | asked => exact .asked
  | located hp => exact .located hp
  | done hseen => exact .done hseen
  | failed herr => exact .failed (himp herr)

theorem Ok.mono {scan : Scan} (himp : Err → Err') (h : Ok Err query buckets base w scan) :
    Ok Err' query buckets base w scan where
  returned := h.returned
  kept := h.kept
  stage := by
    have hstage := h.stage
    obtain ⟨pages, after, stage⟩ := scan
    cases stage with
    | between => exact hstage
    | reading waiting reads result =>
        obtain ⟨hpages, joined, hpage⟩ := hstage
        exact ⟨hpages, joined, hpage.all, hpage.merged, hpage.seen,
          fun read hread => (hpage.reading read hread).mono himp, hpage.spawned⟩
    | finished => exact hstage
    | failed => exact ⟨himp hstage.1, hstage.2⟩
    | panicked => exact hstage

/-- A read that is refused has failed. -/
theorem ReadOk.refuse {q : Request} {k : q.Reply → Worker (Except DurableTableError (List Record))}
    {r : q.Reply} (herr : Err) (h : ReadOk Err query base w after ⟨b, .ask (.call q) k⟩)
    (hf : q.Failed r) :
    ReadOk Err query base w after ⟨b, k r⟩ ∧ weight (k r) + 1 ≤ weight (.ask (.call q) k) := by
  generalize hread : (⟨b, .ask (.call q) k⟩ : BucketRead) = read at h
  cases h with
  | asked =>
      rw [spawn, readBucket_eq] at hread
      cases hread
      obtain ⟨e, rfl⟩ := hf
      exact ⟨.failed herr, Nat.le_succ 2⟩
  | located =>
      rw [readArchived_eq] at hread
      cases hread
      obtain ⟨e, rfl⟩ := hf
      exact ⟨.failed herr, le_rfl⟩
  | done => cases hread
  | failed => cases hread

/-- A refused read leaves the client in order, and takes it further. -/
theorem Ok.refuse {q : Request} {k : q.Reply → Worker (Except DurableTableError (List Record))}
    {r : q.Reply} (herr : Err)
    (h : Ok Err query buckets base w
      ⟨pages, after, .reading waiting (l ++ ⟨b, .ask (.call q) k⟩ :: l') result⟩)
    (hf : q.Failed r) :
    Ok Err query buckets base w ⟨pages, after, .reading waiting (l ++ ⟨b, k r⟩ :: l') result⟩ ∧
      Advances buckets.length
        ⟨pages, after, .reading waiting (l ++ ⟨b, .ask (.call q) k⟩ :: l') result⟩
        ⟨pages, after, .reading waiting (l ++ ⟨b, k r⟩ :: l') result⟩ := by
  obtain ⟨-, joined, hpage⟩ := h.stage
  obtain ⟨hread, hweight⟩ := ReadOk.refuse herr
    (hpage.reading _ (List.mem_append_right _ (List.mem_cons_self ..))) hf
  exact h.goOn hread hweight

/-- A page that failed can be asked for again. -/
theorem Ok.retry {e : DurableTableError}
    (h : Ok Err query buckets base w ⟨pages, after, .failed e⟩) :
    Ok Err query buckets base w ⟨pages, after, .between⟩ :=
  ⟨h.returned, h.kept, h.stage.2⟩

/-- The steps of the client so far, and those left to the end of the page, are bounded by the pages
it has asked for. -/
def WithinPages (n : ℕ) (l : List Turn) (scan : Scan) : Prop :=
  l.count (.move .client) + l.count .refused + scan.left n ≤
    (scan.opened + l.count .retried) * (3 * n + 2)

theorem withinPages_start (n : ℕ) : WithinPages n [] .start := by
  simp [WithinPages, left, opened, start]

section WithinPages

variable {n : ℕ} {turns : List Turn} {scan scan' : Scan}

theorem WithinPages.others (h : WithinPages n turns scan) :
    WithinPages n (turns ++ [.move .others]) scan := by
  simpa [WithinPages] using h

theorem WithinPages.advance {turn : Turn} (h : WithinPages n turns scan)
    (hs : Advances n scan scan')
    (ht : turn ∈ [Turn.move .client, .refused]) : WithinPages n (turns ++ [turn]) scan' := by
  unfold WithinPages Advances at *
  rcases List.mem_pair.mp ht with rfl | rfl
  · simp only [List.count_append, List.count_singleton_self, add_mul] at *
    simp
    omega
  · simp only [List.count_append, List.count_singleton_self, add_mul] at *
    simp
    omega

theorem WithinPages.retry {e : DurableTableError}
    (h : WithinPages n turns ⟨pages, after, .failed e⟩) :
    WithinPages n (turns ++ [.retried]) ⟨pages, after, .between⟩ := by
  simp only [WithinPages, left, opened, List.count_append, List.count_singleton_self, add_mul] at *
  simp
  omega

end WithinPages

/-- A client that is in order is given what it should, and can go on. -/
theorem Ok.withstands {Good : BucketId → Prop} {s₀ s : System S.State} {turns : List Turn}
    {scan : Scan} (h₀ : Filed s₀ base) (h : Filed s w.applied)
    (hb : table.definition.bucketsForRange query.partitionKey query.range = some buckets)
    (hok : Ok (.refused ∈ turns) query buckets base w scan)
    (hprogress : scan.stage ≠ .finished → (∀ e, scan.stage ≠ .failed e) →
      ∃ s' scan', Step S table query s.services scan s' scan')
    (hwithin : WithinPages buckets.length turns scan) :
    Withstands Good table query s₀ turns s scan := by
  refine ⟨hok.given h₀ h hb, ⟨hok.not_panicked, fun hno _ he => hno (hok.err_of_failed he)⟩,
    fun hdone => ?_, ?_⟩
  · by_cases hserved : ∀ e, scan.stage ≠ .failed e
    · obtain ⟨s', scan', hstep⟩ := hprogress hdone hserved
      exact ⟨_, _, List.mem_cons_self .., .move (.client hstep)⟩
    · obtain ⟨e, he⟩ := not_forall_not.mp hserved
      obtain ⟨pages, after, stage⟩ := scan
      cases he
      exact ⟨_, _, List.mem_cons_of_mem _ (List.mem_cons_self ..), .retry⟩
  · rw [hb]
    refine (Nat.le_of_add_right_le hwithin).trans (Nat.mul_le_mul_right _ ?_)
    exact Nat.add_le_add_right (hok.opened_le h) _

end Scan
end Pulpitum
