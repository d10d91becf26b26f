import Mathlib

/-!
# Support — Fallible

Computations that stop at their first error, and what their success says about their parts.

* `ok_of_bind`, `mapError_eq_ok`, `ensure_eq_ok`: a computation succeeded, so its steps did.
* `forall₂_of_mapM_eq_ok`, `mapM_eq_ok_of_forall₂`: the same for a computation done to each entry
  of a list.
* `mapM_mapM_of_flatMap`: a computation done to each entry of a list cut into pieces.
* `Attempt`: computations that may panic besides, `Attempt.bind_eq_pure_iff` and
  `Attempt.mapM_eq_pure_iff` their successes, `Attempt.throws_of_bind` and
  `Attempt.throws_of_mapM` their errors.
-/

namespace Fallible

universe u v

variable {ε ε' : Type u} {α β γ : Type v}

/-- Go on if `p` holds, and fail with `e` if not. -/
def ensure (p : Prop) [Decidable p] (e : ε) : Except ε Unit :=
  if p then .ok () else .error e

@[simp]
theorem ensure_eq_ok {p : Prop} [Decidable p] {e : ε} {u : Unit} : ensure p e = .ok u ↔ p := by
  unfold ensure
  split <;> simp_all

theorem ensure_of {p : Prop} [Decidable p] {e : ε} (h : p) : ensure p e = .ok () := if_pos h

theorem ok_of_bind {x : Except ε α} {f : α → Except ε β} {b : β} (h : (x >>= f) = .ok b) :
    ∃ a, x = .ok a ∧ f a = .ok b := by
  cases x with
  | error e => cases h
  | ok a => exact ⟨a, rfl, h⟩

/-- A computation whose first part succeeds goes on with its value. -/
theorem bind_of_ok {x : Except ε α} {f : α → Except ε β} {a : α} {r : Except ε β} (hx : x = .ok a)
    (h : f a = r) : (x >>= f) = r := by
  rw [hx]
  exact h

theorem error_of_bind {x : Except ε α} {f : α → Except ε β} {e : ε}
    (h : (x >>= f) = .error e) : x = .error e ∨ ∃ a, x = .ok a ∧ f a = .error e := by
  cases x with
  | error e' => exact .inl (congrArg _ (Except.error.inj h))
  | ok a => exact .inr ⟨a, rfl, h⟩

@[simp]
theorem ok_bind {a : α} {f : α → Except ε β} : (Except.ok a >>= f) = f a := rfl

@[simp]
theorem mapError_eq_ok {x : Except ε α} {f : ε → ε'} {a : α} :
    x.mapError f = .ok a ↔ x = .ok a := by
  cases x <;> simp [Except.mapError]

theorem map_eq_ok {x : Except ε α} {f : α → β} {b : β} (h : x.map f = .ok b) :
    ∃ a, x = .ok a ∧ b = f a := by
  cases x with
  | error e => cases h
  | ok a =>
      cases h
      exact ⟨a, rfl, rfl⟩

/-- If an entry-wise computation succeeded, it succeeded on every entry. -/
theorem forall₂_of_mapM_eq_ok {f : α → Except ε β} :
    ∀ {l : List α} {l' : List β}, l.mapM f = .ok l' → List.Forall₂ (fun a b => f a = .ok b) l l'
  | [], l', h => by cases h; exact .nil
  | a :: l, l', h => by
      rw [List.mapM_cons] at h
      obtain ⟨b, hb, h⟩ := ok_of_bind h
      obtain ⟨bs, hbs, h⟩ := ok_of_bind h
      cases h
      exact .cons hb (forall₂_of_mapM_eq_ok hbs)

theorem exists_ok_of_mapM_eq_ok {f : α → Except ε β} {l : List α} {l' : List β}
    (h : l.mapM f = .ok l') : ∀ a ∈ l, ∃ b, f a = .ok b := by
  have hf := forall₂_of_mapM_eq_ok h
  clear h
  induction hf with
  | nil => exact fun a ha => absurd ha List.not_mem_nil
  | cons hb _ ih =>
      intro a ha
      rcases List.mem_cons.mp ha with rfl | ha
      · exact ⟨_, hb⟩
      · exact ih a ha

/-- What an entry-wise computation returned is the value of some entry. -/
theorem mem_of_mapM_eq_ok {f : α → Except ε β} {l : List α} {l' : List β}
    (h : l.mapM f = .ok l') : ∀ b ∈ l', ∃ a ∈ l, f a = .ok b := by
  have hf := forall₂_of_mapM_eq_ok h
  clear h
  induction hf with
  | nil => exact List.forall_mem_nil _
  | cons hb _ ih =>
      refine List.forall_mem_cons.mpr ⟨⟨_, List.mem_cons_self .., hb⟩, fun b hb' => ?_⟩
      obtain ⟨a, ha, hab⟩ := ih b hb'
      exact ⟨a, List.mem_cons_of_mem _ ha, hab⟩

theorem mapM_eq_ok_of_forall₂ {f : α → Except ε β} {l : List α} {l' : List β}
    (h : List.Forall₂ (fun a b => f a = .ok b) l l') : l.mapM f = .ok l' := by
  induction h with
  | nil => rfl
  | cons hb _ ih =>
      rw [List.mapM_cons, hb, ok_bind, ih]
      rfl

theorem mapM_congr {f g : α → Except ε β} :
    ∀ {l : List α}, (∀ a ∈ l, f a = g a) → l.mapM f = l.mapM g
  | [], _ => rfl
  | a :: l, h => by
      rw [List.mapM_cons, List.mapM_cons, h a (List.mem_cons_self ..),
        mapM_congr fun b hb => h b (List.mem_cons_of_mem _ hb)]

/-- What succeeds on all pieces in a row succeeds on them piece by piece. -/
theorem mapM_mapM_of_flatMap {f : β → Except ε γ} {g : α → List β} :
    ∀ {l : List α} {cs : List γ}, (l.flatMap g).mapM f = .ok cs →
      ∃ css, l.mapM (fun a => (g a).mapM f) = .ok css ∧ css.flatten = cs
  | [], cs, h => by cases h; exact ⟨[], rfl, rfl⟩
  | a :: l, cs, h => by
      rw [List.flatMap_cons, List.mapM_append] at h
      obtain ⟨bs, hbs, h⟩ := ok_of_bind h
      obtain ⟨ds, hds, h⟩ := ok_of_bind h
      obtain ⟨css, hcss, rfl⟩ := mapM_mapM_of_flatMap hds
      cases h
      refine ⟨bs :: css, ?_, rfl⟩
      rw [List.mapM_cons, hbs, ok_bind, hcss]
      rfl

/-- Lists that are related entry by entry have a partner for every entry. -/
theorem exists_of_forall₂ {R : α → β → Prop} {l : List α} {l' : List β} (h : List.Forall₂ R l l') :
    ∀ a ∈ l, ∃ b, R a b := by
  induction h with
  | nil => exact List.forall_mem_nil _
  | cons hb _ ih => exact List.forall_mem_cons.mpr ⟨⟨_, hb⟩, ih⟩

theorem exists_forall₂ {R : α → β → Prop} {l : List α} (h : ∀ a ∈ l, ∃ b, R a b) :
    ∃ l', List.Forall₂ R l l' := by
  induction l with
  | nil => exact ⟨[], .nil⟩
  | cons a l ih =>
      obtain ⟨⟨b, hb⟩, hl⟩ := List.forall_mem_cons.mp h
      obtain ⟨bs, hbs⟩ := ih hl
      exact ⟨b :: bs, .cons hb hbs⟩

/-- An entry-wise search finds something for every entry, or nothing. -/
theorem mapM_eq_some_iff {f : α → Option β} :
    ∀ {l : List α} {l' : List β}, l.mapM f = some l' ↔ List.Forall₂ (fun a b => f a = some b) l l'
  | [], l' => by
      rw [List.mapM_nil, List.forall₂_nil_left_iff]
      exact (Option.some_inj.trans eq_comm)
  | a :: l, l' => by
      rw [List.mapM_cons, List.forall₂_cons_left_iff]
      simp only [Option.bind_eq_bind, Option.bind_eq_some_iff, mapM_eq_some_iff, Option.pure_def,
        Option.some.injEq]
      constructor
      · rintro ⟨b, hb, bs, hbs, rfl⟩
        exact ⟨b, bs, hb, hbs, rfl⟩
      · rintro ⟨b, bs, hb, hbs, rfl⟩
        exact ⟨b, hb, bs, hbs, rfl⟩

/-- What an entry-wise search has found. -/
theorem filterMap_of_forall₂ {f : α → Option β} {l : List α} {l' : List β}
    (h : List.Forall₂ (fun a b => f a = some b) l l') : l.filterMap f = l' := by
  induction h with
  | nil => rfl
  | cons hb _ ih => rw [List.filterMap_cons_some hb, ih]

theorem exists_none_of_mapM {f : α → Option β} :
    ∀ {l : List α}, l.mapM f = none → ∃ a ∈ l, f a = none
  | [], h => by cases h
  | a :: l, h => by
      rw [List.mapM_cons] at h
      cases ha : f a with
      | none => exact ⟨a, List.mem_cons_self .., ha⟩
      | some b =>
          rw [ha] at h
          cases hl : l.mapM f with
          | none =>
              obtain ⟨a', ha', hnone⟩ := exists_none_of_mapM hl
              exact ⟨a', List.mem_cons_of_mem _ ha', hnone⟩
          | some bs =>
              rw [hl] at h
              cases h

/-! ### Computations that may panic -/

/-- A computation that returns, fails, or panics. -/
abbrev Attempt (ε : Type u) (α : Type u) := ExceptT ε Option α

namespace Attempt

variable {ε α β : Type u}

/-- Go on with the value, or fail with `e`. -/
def orFail (e : ε) : Option α → Attempt ε α
  | some a => pure a
  | none => throw e

/-- Go on with the value, or panic. -/
def orPanic : Option α → Attempt ε α
  | some a => pure a
  | none => (none : Option (Except ε α))

@[simp]
theorem pure_inj {a b : α} : (pure a : Attempt ε α) = pure b ↔ a = b :=
  ⟨fun h => Except.ok.inj (Option.some.inj h), congrArg _⟩

@[simp]
theorem orFail_eq_pure_iff {e : ε} {x : Option α} {a : α} : orFail e x = pure a ↔ x = some a := by
  cases x with
  | none => exact iff_of_false (fun h => nomatch Option.some.inj h) (fun h => nomatch h)
  | some b => exact pure_inj.trans Option.some_inj.symm

@[simp]
theorem orPanic_eq_pure_iff {x : Option α} {a : α} :
    (orPanic x : Attempt ε α) = pure a ↔ x = some a := by
  cases x with
  | none => exact iff_of_false (fun h => nomatch h) (fun h => nomatch h)
  | some b => exact pure_inj.trans Option.some_inj.symm

@[simp]
theorem bind_eq_pure_iff {x : Attempt ε α} {f : α → Attempt ε β} {b : β} :
    (x >>= f) = pure b ↔ ∃ a, x = pure a ∧ f a = pure b := by
  constructor
  · intro h
    rcases x with _ | _ | a
    · cases h
    · cases h
    · exact ⟨a, rfl, h⟩
  · rintro ⟨a, rfl, h⟩
    exact h

theorem mapM_eq_pure_iff {f : α → Attempt ε β} :
    ∀ {l : List α} {l' : List β},
      l.mapM f = pure l' ↔ List.Forall₂ (fun a b => f a = pure b) l l'
  | [], l' => by
      rw [List.mapM_nil, List.forall₂_nil_left_iff, pure_inj, eq_comm]
  | a :: l, l' => by
      rw [List.mapM_cons, List.forall₂_cons_left_iff]
      simp only [bind_eq_pure_iff, mapM_eq_pure_iff, pure_inj]
      constructor
      · rintro ⟨b, hb, bs, hbs, rfl⟩
        exact ⟨b, bs, hb, hbs, rfl⟩
      · rintro ⟨b, bs, hb, hbs, rfl⟩
        exact ⟨b, hb, bs, hbs, rfl⟩

/-! What fails in a computation fails in one of its parts. -/

theorem throws_of_bind {x : Attempt ε α} {f : α → Attempt ε β} {e : ε}
    (h : (x >>= f) = throw e) : x = throw e ∨ ∃ a, x = pure a ∧ f a = throw e := by
  rcases x with _ | _ | a
  · cases h
  · cases h
    exact .inl rfl
  · exact .inr ⟨a, rfl, h⟩

theorem throws_of_mapM {f : α → Attempt ε β} {e : ε} :
    ∀ {l : List α}, l.mapM f = throw e → ∃ a ∈ l, f a = throw e
  | [], h => by cases h
  | a :: l, h => by
      rw [List.mapM_cons] at h
      obtain ha | ⟨b, -, h⟩ := throws_of_bind h
      · exact ⟨a, List.mem_cons_self .., ha⟩
      · obtain hl | ⟨bs, -, h⟩ := throws_of_bind h
        · obtain ⟨a', ha', h'⟩ := throws_of_mapM hl
          exact ⟨a', List.mem_cons_of_mem _ ha', h'⟩
        · cases h

theorem orFail_eq_throw {e e' : ε} {x : Option α} (h : orFail e x = throw e') :
    e = e' ∧ x = none := by
  cases x with
  | none =>
      cases h
      exact ⟨rfl, rfl⟩
  | some a => cases h

theorem orPanic_ne_throw {e : ε} {x : Option α} : (orPanic x : Attempt ε α) ≠ throw e := by
  intro h
  cases x with
  | none => cases h
  | some a => cases h

end Attempt

end Fallible
