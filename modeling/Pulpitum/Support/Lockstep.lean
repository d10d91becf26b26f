import Mathlib

/-!
# Support — Lockstep

Two machines that are given the same inputs.  A machine answers an input and changes its state.

* `Machine.lockstep`: if every input that meets a guard is answered alike from related states and
  leaves related states, then along inputs that all meet the guard **the answers are the same**
  and the states stay related.
* `Unwinds.foldl`: if a relation between states survives an input of one's own on both sides, and
  any other input on one side, then **two lists of inputs with the same own inputs, in the same
  order,** lead from related states to related states.
-/

/-- A machine: the answer to an input, and the state after it. -/
abbrev Machine {ι : Type*} (ω : ι → Type*) (σ : Type*) := (i : ι) → σ → ω i × σ

namespace Machine

variable {ι σ τ : Type*} {ω : ι → Type*}

/-- The state after some inputs. -/
def after (m : Machine ω σ) : List ι → σ → σ
  | [], s => s
  | i :: is, s => after m is (m i s).2

/-- The answers to some inputs. -/
def answers (m : Machine ω σ) : List ι → σ → List ((i : ι) × ω i)
  | [], _ => []
  | i :: is, s => ⟨i, (m i s).1⟩ :: answers m is (m i s).2

/-- Every input meets the guard in the states that the two machines have when they are given it. -/
def Guarded (m : Machine ω σ) (n : Machine ω τ) (guard : ι → σ → τ → Prop) :
    List ι → σ → τ → Prop
  | [], _, _ => True
  | i :: is, s, t => guard i s t ∧ Guarded m n guard is (m i s).2 (n i t).2

/-- One input: it is answered alike, and the states stay related. -/
structure Alike (R : σ → τ → Prop) (m : Machine ω σ) (n : Machine ω τ) (i : ι) (s : σ) (t : τ) :
    Prop where
  answer : (m i s).1 = (n i t).1
  related : R (m i s).2 (n i t).2

/-- **Two machines in lockstep.** -/
theorem lockstep {m : Machine ω σ} {n : Machine ω τ} {R : σ → τ → Prop}
    {guard : ι → σ → τ → Prop} {is : List ι}
    (hstep : ∀ i ∈ is, ∀ s t, R s t → guard i s t → Alike R m n i s t) {s : σ} {t : τ}
    (hR : R s t) (hg : Guarded m n guard is s t) :
    answers m is s = answers n is t ∧ R (after m is s) (after n is t) := by
  induction is generalizing s t with
  | nil => exact ⟨rfl, hR⟩
  | cons i is ih =>
      obtain ⟨hi, his⟩ := hg
      obtain ⟨hanswer, hrelated⟩ := hstep i List.mem_cons_self s t hR hi
      obtain ⟨hrest, hend⟩ := ih (fun j hj => hstep j (List.mem_cons_of_mem i hj)) hrelated his
      exact ⟨by rw [answers, answers, hanswer, hrest], hend⟩

end Machine

/-! ### Inputs of one's own, among others -/

variable {ι σ : Type*}

/-- An unwinding relation: a symmetric relation that an own input on both sides keeps, and any
other input on one side. -/
structure Unwinds (step : σ → ι → σ) (own : ι → Bool) (allowed : ι → Prop) (R : σ → σ → Prop) :
    Prop where
  symm : ∀ {s t}, R s t → R t s
  both : ∀ {i s t}, allowed i → own i = true → R s t → R (step s i) (step t i)
  one : ∀ {i s t}, allowed i → own i = false → R s t → R (step s i) t

namespace Unwinds

variable {step : σ → ι → σ} {own : ι → Bool} {allowed : ι → Prop} {R : σ → σ → Prop}

/-- Inputs that are not one's own keep the relation. -/
theorem others (h : Unwinds step own allowed R) {is : List ι} (his : ∀ i ∈ is, allowed i)
    (hown : ∀ i ∈ is, own i = false) {s t : σ} (hR : R s t) : R (is.foldl step s) t := by
  induction is generalizing s with
  | nil => exact hR
  | cons i is ih =>
      rw [List.forall_mem_cons] at his hown
      exact ih his.2 hown.2 (h.one his.1 hown.1 hR)

/-- **Own inputs lead to related states, whatever the others are.** -/
theorem foldl (h : Unwinds step own allowed R) {is js : List ι} (his : ∀ i ∈ is, allowed i)
    (hjs : ∀ j ∈ js, allowed j) (hown : is.filter own = js.filter own) {s t : σ} (hR : R s t) :
    R (is.foldl step s) (js.foldl step t) := by
  induction is generalizing js s t with
  | nil =>
      have hnone : ∀ j ∈ js, own j = false := by
        simpa using List.filter_eq_nil_iff.mp hown.symm
      exact h.symm (h.others hjs hnone (h.symm hR))
  | cons i is ih =>
      rw [List.forall_mem_cons] at his
      cases hi : own i with
      | false =>
          rw [List.filter_cons_of_neg (by simp [hi])] at hown
          exact ih his.2 hjs hown (h.one his.1 hi hR)
      | true =>
          -- the first own input on the other side is this one
          rw [List.filter_cons_of_pos hi] at hown
          obtain ⟨l, l', rfl, hl, -, hrest⟩ := List.filter_eq_cons_iff.mp hown.symm
          rw [List.forall_mem_append, List.forall_mem_cons] at hjs
          have hbefore : R s (l.foldl step t) :=
            h.symm (h.others hjs.1 (by simpa using hl) (h.symm hR))
          rw [List.foldl_append]
          exact ih his.2 hjs.2.2 hrest.symm (h.both his.1 hi hbefore)

end Unwinds
