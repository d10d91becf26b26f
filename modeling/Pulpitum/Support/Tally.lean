import Mathlib

/-!
# Support — Tally

Counters that several parties change, each at its own time.  Every party has a due, what it has
added to the counter and not yet taken back, in a commutative group; the counter is right if it is
the sum of the dues.  The parties are a list of tasks (`total`) and a table of resources of which
the first `n` exist (`upTo`).

* `total_replace`, `upTo_update`, `upTo_succ`: the sum after one party has moved.
* `upTo_indicator`: a sum of ones is the number of those that have one.
-/

namespace Tally

variable {α M : Type*} [AddCommGroup M] {w : α → M} {l l' : List α} {a b : α} {f : ℕ → α} {c n : ℕ}

/-- The sum of the dues of a list. -/
def total (w : α → M) (l : List α) : M := (l.map w).sum

@[simp] theorem total_nil : total w [] = 0 := rfl

@[simp] theorem total_cons : total w (a :: l) = w a + total w l := by simp [total]

theorem total_append : total w (l ++ l') = total w l + total w l' := by simp [total]

/-- One member of the list has moved. -/
theorem total_replace : total w (l ++ b :: l') = total w (l ++ a :: l') - w a + w b := by
  simp only [total, List.map_append, List.map_cons, List.sum_append, List.sum_cons]
  abel

theorem total_eq_zero (h : ∀ a ∈ l, w a = 0) : total w l = 0 := by
  induction l with
  | nil => rfl
  | cons a l ih =>
      obtain ⟨ha, hl⟩ := List.forall_mem_cons.mp h
      rw [total_cons, ha, ih hl, add_zero]

/-- The sum of the dues of the first `n` entries of a table. -/
def upTo (w : α → M) (f : ℕ → α) (n : ℕ) : M := ∑ c ∈ Finset.range n, w (f c)

/-- One entry of the table has moved. -/
theorem upTo_update (hc : c < n) :
    upTo w (Function.update f c a) n = upTo w f n - w (f c) + w a := by
  have hmem : c ∈ Finset.range n := Finset.mem_range.mpr hc
  have hrest : ∑ i ∈ (Finset.range n).erase c, w (Function.update f c a i) =
      ∑ i ∈ (Finset.range n).erase c, w (f i) := by
    refine Finset.sum_congr rfl fun i hi => ?_
    rw [Function.update_of_ne (Finset.ne_of_mem_erase hi)]
  rw [upTo, upTo, ← Finset.add_sum_erase _ _ hmem, hrest, Function.update_self,
    ← Finset.add_sum_erase _ (fun i => w (f i)) hmem]
  abel

/-- One more entry exists. -/
theorem upTo_succ : upTo w (Function.update f n a) (n + 1) = upTo w f n + w a := by
  rw [upTo, Finset.sum_range_succ, Function.update_self]
  congr 1
  refine Finset.sum_congr rfl fun i hi => ?_
  rw [Function.update_of_ne (Finset.mem_range.mp hi).ne]

/-- A sum of ones. -/
theorem upTo_indicator (p : α → Bool) (m : M) :
    upTo (fun a => if p a then m else 0) f n = ((List.range n).countP fun c => p (f c)) • m := by
  induction n with
  | zero => simp [upTo]
  | succ n ih =>
      unfold upTo at ih ⊢
      rw [Finset.sum_range_succ, ih, List.range_succ, List.countP_append, add_nsmul]
      cases h : p (f n) <;> simp [h]

end Tally
