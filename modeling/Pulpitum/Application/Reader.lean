import Mathlib
import Pulpitum.Application.Pagination

/-!
# Application — Reader

The cutover itself, as the stores of a client that only reads.  What is known of a client over
these stores is known of one over any other stores, as long as these answer its reads as the
cutover does.

* `refinement`, `servesReads`: these stores serve reads.
-/

namespace Pulpitum
namespace Reader

open Cutover (World)

/-- The reads that are answered. -/
def Answered (w : World BucketId Record String) : Request → Prop
  | .store (.readRange ..) => True
  | .archive (.getBucket b key) => ∃ d, (w.cell b).phase = .archived key d
  | _ => False

/-- Reads are answered from the tier a bucket is in, and everything else fails. -/
inductive Serves : (q : Request) → World BucketId Record String → q.Reply →
    World BucketId Record String → Prop where
  | archived {w : World BucketId Record String} {b : BucketId} {range : TimeRange}
      {after : Option Cursor} {limit : ℕ} {key : String} {d : Bool}
      (h : (w.cell b).phase = .archived key d) :
      Serves (.store (.readRange b range after limit)) w (Except.ok (.archive key)) w
  | hot {w : World BucketId Record String} {b : BucketId} {range : TimeRange}
      {after : Option Cursor} {limit : ℕ} :
      Serves (.store (.readRange b range after limit)) w
        (Except.ok (.hot (selectArchived range after limit (w.visible b)))) w
  | object {w : World BucketId Record String} {b : BucketId} {key : String} {d : Bool}
      (h : (w.cell b).phase = .archived key d) :
      Serves (.archive (.getBucket b key)) w (Except.ok (w.visible b)) w
  | failed {w : World BucketId Record String} {q : Request} {r : q.Reply} (h : q.Failed r)
      (hq : ¬ Answered w q) : Serves q w r w

/-- The cutover as stores. -/
def services : Services := ⟨World BucketId Record String, Serves⟩

/-- A read teaches nothing that workers go by. -/
theorem Serves.learned {w w' : World BucketId Record String} {q : Request} {r : q.Reply}
    (h : Serves q w r w') : w' = w ∧ Coding.plain.Learned q r w.facts := by
  cases h with
  | archived | hot | object => exact ⟨rfl, trivial⟩
  | failed hf => exact ⟨rfl, .of_failed hf⟩

/-- The stores are the cutover. -/
def refinement : Refinement services Coding.plain where
  Tracks s w := s = w
  serve := by
    rintro s s' w q r rfl - - hs
    obtain ⟨rfl, hl⟩ := Serves.learned hs
    exact ⟨_, .skip, rfl, hl⟩
  append := by
    rintro s s' w b r a rfl - - - hs
    cases hs with
    | failed hf =>
        obtain ⟨e, rfl⟩ := hf
        exact ⟨_, .skip, rfl⟩

/-- **The cutover serves reads.** -/
theorem servesReads : refinement.ServesReads where
  total q w := by
    cases q with
    | store q =>
        cases q with
        | readRange => exact ⟨_, w, Serves.hot⟩
        | _ => exact ⟨.error .operationFailed, w, Serves.failed ⟨_, rfl⟩ id⟩
    | archive q =>
        cases q with
        | getBucket b key =>
            by_cases hq : Answered w (.archive (.getBucket b key))
            · obtain ⟨d, h⟩ := hq
              exact ⟨_, w, Serves.object h⟩
            · exact ⟨.error (.other ""), w, Serves.failed ⟨_, rfl⟩ hq⟩
        | _ => exact ⟨.error (.other ""), w, Serves.failed ⟨_, rfl⟩ id⟩
  readRange := by
    rintro s s' w b range after limit r rfl - hs
    cases hs with
    | archived h => exact ⟨rfl, .inl ⟨_, _, h, rfl⟩⟩
    | hot => exact ⟨rfl, .inr rfl⟩
    | failed _ hq => exact absurd trivial hq
  getBucket := by
    rintro s s' w b key d r rfl - hp - hs
    cases hs with
    | object => exact ⟨rfl, rfl⟩
    | failed _ hq => exact absurd ⟨d, hp⟩ hq

end Reader
end Pulpitum
