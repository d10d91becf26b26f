import Mathlib

/-!
# Support — Runs

Finite runs of a labelled transition relation, and the two rules that carry a property along
them: one step preserves it (`Run.invariant`), or it is proved of a run from its last step
(`Run.rec_last`).  Where a state is a list of parties and a step replaces or removes one of
them, `mem_replace`, `forall_mem_replace` and `forall_mem_remove` carry what holds of every party.
-/

/-- A finite run, with the labels of its steps. -/
inductive Run {σ ℓ : Type*} (step : σ → ℓ → σ → Prop) : σ → List ℓ → σ → Prop where
  | refl (s : σ) : Run step s [] s
  | more {s s₁ s' : σ} {a : ℓ} {l : List ℓ}
      (h : step s a s₁) (t : Run step s₁ l s') : Run step s (a :: l) s'

namespace Run

variable {σ ℓ : Type*} {step : σ → ℓ → σ → Prop}

theorem one {s s' : σ} {a : ℓ} (h : step s a s') : Run step s [a] s' :=
  .more h (.refl _)

theorem trans {s s₁ s' : σ} {l₁ l₂ : List ℓ} (h₁ : Run step s l₁ s₁) (h₂ : Run step s₁ l₂ s') :
    Run step s (l₁ ++ l₂) s' := by
  induction h₁ with
  | refl => exact h₂
  | more h _ ih => exact .more h (ih h₂)

theorem snoc {s s₁ s' : σ} {l : List ℓ} {a : ℓ} (h₁ : Run step s l s₁) (h₂ : step s₁ a s') :
    Run step s (l ++ [a]) s' :=
  h₁.trans (.one h₂)

/-- What one step preserves, a run preserves. -/
theorem invariant {I : σ → Prop} (hI : ∀ s a s', I s → step s a s' → I s') {s s' : σ}
    {l : List ℓ} (h : Run step s l s') : I s → I s' := by
  induction h with
  | refl => exact id
  | more h _ ih => exact fun hs => ih (hI _ _ _ hs h)

/-- Induction on a run from its last step. -/
theorem rec_last {s₀ : σ} {P : List ℓ → σ → Prop} (base : P [] s₀)
    (next : ∀ l s a s', Run step s₀ l s → P l s → step s a s' → P (l ++ [a]) s') {l : List ℓ}
    {s : σ} (h : Run step s₀ l s) : P l s := by
  have key : ∀ {s₁ l₂ s'}, Run step s₁ l₂ s' → ∀ l₁, Run step s₀ l₁ s₁ → P l₁ s₁ →
      P (l₁ ++ l₂) s' := by
    intro s₁ l₂ s' h
    induction h with
    | refl => intro l₁ _ hP; simpa using hP
    | more h _ ih =>
        intro l₁ hr hP
        have := ih _ (hr.snoc h) (next _ _ _ _ hr hP h)
        simpa using this
  exact key h [] (.refl _) base

/-- If a label determines the state after its step, the labels of a run determine its end. -/
theorem deterministic (hd : ∀ s a s₁ s₂, step s a s₁ → step s a s₂ → s₁ = s₂) {s s₁ s₂ : σ}
    {l : List ℓ} (h₁ : Run step s l s₁) (h₂ : Run step s l s₂) : s₁ = s₂ := by
  induction h₁ with
  | refl => cases h₂; rfl
  | more h _ ih =>
      cases h₂ with
      | more h' t' =>
          obtain rfl := hd _ _ _ _ h h'
          exact ih t'

/-- A run that takes the labels `l₁ ++ l₂` passes through a state between them. -/
theorem split {s s' : σ} {l₁ l₂ : List ℓ} (h : Run step s (l₁ ++ l₂) s') :
    ∃ m, Run step s l₁ m ∧ Run step m l₂ s' := by
  induction l₁ generalizing s with
  | nil => exact ⟨s, .refl _, h⟩
  | cons a l₁ ih =>
      cases h with
      | more h t =>
          obtain ⟨m, h₁, h₂⟩ := ih t
          exact ⟨m, .more h h₁, h₂⟩

end Run

/-- A party after one of them was replaced is the new one, or one of the others. -/
theorem mem_replace {α : Type*} {l l' : List α} {a x : α} (h : x ∈ l ++ a :: l') :
    x = a ∨ x ∈ l ++ l' := by
  simpa [or_left_comm] using h

/-- The others stay parties. -/
theorem mem_insert_of_mem {α : Type*} {l l' : List α} {a x : α} (h : x ∈ l ++ l') :
    x ∈ l ++ a :: l' := by
  rcases List.mem_append.mp h with h | h
  · exact List.mem_append_left _ h
  · exact List.mem_append_right _ (List.mem_cons_of_mem _ h)

/-- What holds of every party holds after one of them is replaced by another that has it. -/
theorem forall_mem_replace {α : Type*} {P : α → Prop} {l l' : List α} {a b : α}
    (h : ∀ x ∈ l ++ a :: l', P x) (hb : P b) : ∀ x ∈ l ++ b :: l', P x := by
  rw [List.forall_mem_append, List.forall_mem_cons] at h ⊢
  exact ⟨h.1, hb, h.2.2⟩

/-- What holds of every party holds after one of them is removed. -/
theorem forall_mem_remove {α : Type*} {P : α → Prop} {l l' : List α} {a : α}
    (h : ∀ x ∈ l ++ a :: l', P x) : ∀ x ∈ l ++ l', P x := by
  rw [List.forall_mem_append, List.forall_mem_cons] at h
  exact List.forall_mem_append.mpr ⟨h.1, h.2.2⟩
