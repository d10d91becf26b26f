import Mathlib

/-!
# Support — Window

Windows of a two-level order.  A place is an integer and, within it, a key; a window holds the
places after its lower cut and before its upper integer.  A lower cut falls before all keys of an
integer (`⊥`) or after one of its keys.

* `Window.mem_iff_iff`: two windows hold the same places exactly when their cuts are equal or
  both are empty.
-/

namespace Window

variable {K : Type*} [LinearOrder K]

/-- The lower cut of a window. -/
abbrev Cut (K : Type*) := ℤ ×ₗ WithBot K

/-- The cut before all keys of `m`. -/
def before (m : ℤ) : Cut K := toLex (m, ⊥)

/-- The cut after the key `k` of `m`. -/
def after (m : ℤ) (k : K) : Cut K := toLex (m, (k : WithBot K))

/-- The place `(m, k)` is in the window. -/
def Mem (low : Cut K) (up m : ℤ) (k : K) : Prop := low < after m k ∧ m < up

instance (low : Cut K) (up m : ℤ) (k : K) : Decidable (Mem low up m k) := by
  unfold Mem; infer_instance

/-- The window holds no place. -/
def Empty (low : Cut K) (up : ℤ) : Prop := up ≤ (ofLex low).1

instance (low : Cut K) (up : ℤ) : Decidable (Empty low up) := by unfold Empty; infer_instance

theorem before_lt_after {m m' : ℤ} {k : K} : before m < after m' k ↔ m ≤ m' := by
  rw [before, after, Prod.Lex.toLex_lt_toLex]
  constructor
  · rintro (h | ⟨h, -⟩)
    · exact h.le
    · exact h.le
  · intro h
    rcases h.lt_or_eq with h | h
    · exact .inl h
    · exact .inr ⟨h, WithBot.bot_lt_coe k⟩

theorem after_lt_after {m m' : ℤ} {k k' : K} :
    after m k < after m' k' ↔ toLex (m, k) < toLex (m', k') := by
  simp only [after, Prod.Lex.toLex_lt_toLex, WithBot.coe_lt_coe]

/-- The places two windows share. -/
theorem mem_inter {low low' : Cut K} {up up' m : ℤ} {k : K} :
    Mem (max low low') (min up up') m k ↔ Mem low up m k ∧ Mem low' up' m k := by
  simp only [Mem, max_lt_iff, lt_min_iff]
  tauto

theorem lt_after_of_fst_lt {low : Cut K} {m : ℤ} {k : K} (h : (ofLex low).1 < m) :
    low < after m k :=
  Prod.Lex.toLex_lt_toLex.mpr (.inl h)

theorem fst_le_of_lt_after {low : Cut K} {m : ℤ} {k : K} (h : low < after m k) :
    (ofLex low).1 ≤ m := by
  rcases Prod.Lex.toLex_lt_toLex.mp h with h | ⟨h, -⟩
  · exact h.le
  · exact h.le

theorem not_mem_of_empty {low : Cut K} {up m : ℤ} {k : K} (h : Empty low up) :
    ¬ Mem low up m k := fun ⟨h₁, h₂⟩ =>
  absurd (h.trans (fst_le_of_lt_after h₁)) (not_le.mpr h₂)

section

variable (hK : ∀ x : WithBot K, ∃ k : K, x < k)
include hK

theorem exists_mem {low : Cut K} {up : ℤ} (h : ¬ Empty low up) :
    ∃ k, Mem low up (ofLex low).1 k := by
  obtain ⟨k, hk⟩ := hK (ofLex low).2
  exact ⟨k, Prod.Lex.toLex_lt_toLex.mpr (.inr ⟨rfl, hk⟩), not_le.mp h⟩

/-- A window with a lower cut holds a place that one with a higher cut does not. -/
theorem exists_mem_not_mem {low low' : Cut K} {up : ℤ} (up' : ℤ) (h : ¬ Empty low up)
    (hlt : low < low') : ∃ m k, Mem low up m k ∧ ¬ Mem low' up' m k := by
  obtain ⟨m, x⟩ := low
  obtain ⟨m', y⟩ := low'
  rcases Prod.Lex.toLex_lt_toLex.mp hlt with hm | ⟨hm, hxy⟩
  · obtain ⟨k, hk⟩ := exists_mem hK h
    refine ⟨m, k, hk, fun hk' => ?_⟩
    exact absurd (fst_le_of_lt_after hk'.1) (not_le.mpr hm)
  · obtain rfl : m = m' := hm
    cases y with
    | bot => exact absurd hxy not_lt_bot
    | coe k => exact ⟨m, k, ⟨hlt, not_le.mp h⟩, fun hk' => lt_irrefl _ hk'.1⟩

/-- **Windows with the same places** have equal cuts, or are both empty. -/
theorem mem_iff_iff {low low' : Cut K} {up up' : ℤ} :
    (∀ m k, Mem low up m k ↔ Mem low' up' m k) ↔
      (low = low' ∧ up = up') ∨ (Empty low up ∧ Empty low' up') := by
  constructor
  · intro h
    by_cases he : Empty low up
    · right
      refine ⟨he, by_contra fun he' => ?_⟩
      obtain ⟨k, hk⟩ := exists_mem hK he'
      exact not_mem_of_empty he ((h _ _).mpr hk)
    · left
      have he' : ¬ Empty low' up' := fun he' => by
        obtain ⟨k, hk⟩ := exists_mem hK he
        exact not_mem_of_empty he' ((h _ _).mp hk)
      have hlow : low = low' := by
        rcases lt_trichotomy low low' with hlt | heq | hlt
        · obtain ⟨m, k, h₁, h₂⟩ := exists_mem_not_mem hK up' he hlt
          exact absurd ((h m k).mp h₁) h₂
        · exact heq
        · obtain ⟨m, k, h₁, h₂⟩ := exists_mem_not_mem hK up he' hlt
          exact absurd ((h m k).mpr h₁) h₂
      subst hlow
      refine ⟨rfl, ?_⟩
      obtain ⟨k, -⟩ := hK ⊥
      -- the last integer of the longer window is beyond the shorter one
      have last : ∀ {u u' : ℤ}, ¬ Empty low u → u < u' →
          Mem low u' (u' - 1) k ∧ ¬ Mem low u (u' - 1) k := by
        intro u u' hu huu'
        have hlt := not_le.mp hu
        exact ⟨⟨lt_after_of_fst_lt (by omega), by omega⟩, fun hm => by have := hm.2; omega⟩
      rcases lt_trichotomy up up' with hlt | heq | hlt
      · obtain ⟨h₁, h₂⟩ := last he hlt
        exact absurd ((h _ _).mpr h₁) h₂
      · exact heq
      · obtain ⟨h₁, h₂⟩ := last he' hlt
        exact absurd ((h _ _).mp h₁) h₂
  · rintro (⟨rfl, rfl⟩ | ⟨h, h'⟩) m k
    · rfl
    · exact iff_of_false (not_mem_of_empty h) (not_mem_of_empty h')

end

end Window
