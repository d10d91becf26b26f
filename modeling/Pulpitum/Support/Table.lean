import Mathlib

/-!
# Support — Table

A table of rows with a primary key and a row constraint, as a relational store keeps it: no two
rows share a key and every row satisfies the constraint.  Both are fields of `Table`, so a
statement that would break one returns `none` and the table is unchanged.

Every statement is described by what it does to `find?`, the row of a key: `find?_replace`,
`find?_push`, `find?_insertIfAbsent`, `updateAt_cases`.
-/

/-- Rows with distinct keys, each satisfying `check`. -/
structure Table (ρ : Type*) {κ : Type*} (key : ρ → κ) (check : ρ → Prop) where
  rows : List ρ
  keys_nodup : (rows.map key).Nodup
  checked : ∀ r ∈ rows, check r

namespace Table

variable {ρ κ : Type*} [DecidableEq κ] {key : ρ → κ} {check : ρ → Prop}

/-- The table with no row. -/
def empty : Table ρ key check where
  rows := []
  keys_nodup := List.nodup_nil
  checked := by simp

/-- The row with key `k`. -/
def find? (t : Table ρ key check) (k : κ) : Option ρ := t.rows.find? (fun r => key r = k)

@[simp]
theorem find?_empty (k : κ) : (empty : Table ρ key check).find? k = none := rfl

theorem find?_eq_some_iff {t : Table ρ key check} {k : κ} {r : ρ} :
    t.find? k = some r ↔ r ∈ t.rows ∧ key r = k := by
  constructor
  · intro h
    exact ⟨List.mem_of_find?_eq_some h, by simpa using List.find?_some h⟩
  · rintro ⟨hr, rfl⟩
    cases h : t.find? (key r) with
    | none =>
        have := List.find?_eq_none.mp h r hr
        simp at this
    | some r' =>
        have h₁ := List.mem_of_find?_eq_some h
        have h₂ : key r' = key r := by simpa using List.find?_some h
        rw [List.inj_on_of_nodup_map t.keys_nodup h₁ hr h₂]

theorem find?_eq_none_iff {t : Table ρ key check} {k : κ} :
    t.find? k = none ↔ ∀ r ∈ t.rows, key r ≠ k := by
  simp [find?, List.find?_eq_none]

theorem key_of_find? {t : Table ρ key check} {k : κ} {r : ρ} (h : t.find? k = some r) :
    key r = k :=
  (find?_eq_some_iff.mp h).2

theorem check_of_find? {t : Table ρ key check} {k : κ} {r : ρ} (h : t.find? k = some r) :
    check r :=
  t.checked r (find?_eq_some_iff.mp h).1

/-! ### Replacing and adding a row -/

/-- The row of `r`'s key, if there is one, becomes `r`. -/
def replace (t : Table ρ key check) (r : ρ) (h : check r) : Table ρ key check where
  rows := t.rows.map fun x => if key x = key r then r else x
  keys_nodup := by
    have : (t.rows.map fun x => if key x = key r then r else x).map key = t.rows.map key := by
      rw [List.map_map]
      refine List.map_congr_left fun x _ => ?_
      by_cases e : key x = key r
      · simp [e]
      · simp [e]
    rw [this]; exact t.keys_nodup
  checked := by
    intro x hx
    obtain ⟨y, hy, rfl⟩ := List.mem_map.mp hx
    split
    · exact h
    · exact t.checked y hy

theorem mem_replace {t : Table ρ key check} {r x : ρ} {h : check r}
    (hx : x ∈ (t.replace r h).rows) : x = r ∨ x ∈ t.rows := by
  obtain ⟨y, hy, rfl⟩ := List.mem_map.mp hx
  split
  · exact .inl rfl
  · exact .inr hy

theorem find?_replace (t : Table ρ key check) (r : ρ) (h : check r) (k : κ) :
    (t.replace r h).find? k = if key r = k then (t.find? k).map (fun _ => r) else t.find? k := by
  by_cases e : key r = k
  · subst e
    rw [if_pos rfl]
    cases hf : t.find? (key r) with
    | none =>
        rw [find?_eq_none_iff] at hf
        refine find?_eq_none_iff.mpr fun x hx => ?_
        obtain ⟨y, hy, rfl⟩ := List.mem_map.mp hx
        simp [hf y hy]
    | some r₀ =>
        obtain ⟨hr₀, hk⟩ := find?_eq_some_iff.mp hf
        exact find?_eq_some_iff.mpr ⟨List.mem_map.mpr ⟨r₀, hr₀, by simp [hk]⟩, rfl⟩
  · rw [if_neg e]
    cases hf : t.find? k with
    | none =>
        rw [find?_eq_none_iff] at hf
        refine find?_eq_none_iff.mpr fun x hx => ?_
        rcases mem_replace hx with rfl | hx
        · exact e
        · exact hf x hx
    | some r₀ =>
        obtain ⟨hr₀, rfl⟩ := find?_eq_some_iff.mp hf
        exact find?_eq_some_iff.mpr
          ⟨List.mem_map.mpr ⟨r₀, hr₀, by simp [Ne.symm e]⟩, rfl⟩

/-- `r` added at the end, when no row has its key. -/
def push (t : Table ρ key check) (r : ρ) (h : check r) (hk : t.find? (key r) = none) :
    Table ρ key check where
  rows := t.rows ++ [r]
  keys_nodup := by
    rw [List.map_append, List.nodup_append]
    refine ⟨t.keys_nodup, by simp, fun a ha b hb => ?_⟩
    obtain ⟨x, hx, rfl⟩ := List.mem_map.mp ha
    obtain rfl : b = key r := by simpa using hb
    exact find?_eq_none_iff.mp hk x hx
  checked := by
    intro x hx
    rcases List.mem_append.mp hx with hx | hx
    · exact t.checked x hx
    · obtain rfl : x = r := by simpa using hx
      exact h

theorem find?_push (t : Table ρ key check) (r : ρ) (h : check r) (hk : t.find? (key r) = none)
    (k : κ) : (t.push r h hk).find? k = if key r = k then some r else t.find? k := by
  by_cases e : key r = k
  · subst e
    rw [if_pos rfl]
    exact find?_eq_some_iff.mpr ⟨by simp [push], rfl⟩
  · rw [if_neg e]
    simp [find?, push, List.find?_append, e]

/-! ### Statements -/

/-- `DELETE … WHERE p`. -/
def deleteWhere (t : Table ρ key check) (p : ρ → Bool) : Table ρ key check where
  rows := t.rows.filter fun r => !p r
  keys_nodup := (List.filter_sublist.map key).nodup t.keys_nodup
  checked := fun r hr => t.checked r (List.mem_of_mem_filter hr)

variable [DecidablePred check]

/-- `INSERT`: fails when a row has the key, or the row violates the constraint. -/
def insert? (t : Table ρ key check) (r : ρ) : Option (Table ρ key check) :=
  if h : check r ∧ t.find? (key r) = none then some (t.push r h.1 h.2) else none

theorem insert?_eq_some {t t' : Table ρ key check} {r : ρ} (h : t.insert? r = some t') :
    ∃ hc hk, t' = t.push r hc hk := by
  unfold insert? at h
  split at h
  · rename_i hh
    exact ⟨hh.1, hh.2, (Option.some.inj h).symm⟩
  · cases h

/-- `INSERT … ON CONFLICT DO NOTHING`. -/
def insertIfAbsent (t : Table ρ key check) (r : ρ) : Option (Table ρ key check) :=
  match t.find? (key r) with
  | some _ => some t
  | none => t.insert? r

theorem insertIfAbsent_of_absent {t : Table ρ key check} {r : ρ} (hk : t.find? (key r) = none)
    (hc : check r) : t.insertIfAbsent r = some (t.push r hc hk) := by
  simp only [insertIfAbsent, hk, insert?]
  exact dif_pos ⟨hc, trivial⟩

theorem find?_insertIfAbsent {t t' : Table ρ key check} {r : ρ}
    (h : t.insertIfAbsent r = some t') (k : κ) :
    t'.find? k = if key r = k then some ((t.find? k).getD r) else t.find? k := by
  unfold insertIfAbsent at h
  cases hf : t.find? (key r) with
  | some r₀ =>
      rw [hf] at h
      obtain rfl := Option.some.inj h
      by_cases e : key r = k
      · subst e; simp [hf]
      · simp [e]
  | none =>
      rw [hf] at h
      obtain ⟨hc, hk, rfl⟩ := insert?_eq_some h
      rw [find?_push]
      by_cases e : key r = k
      · subst e; simp [hf]
      · simp [e]

theorem mem_insertIfAbsent {t t' : Table ρ key check} {r x : ρ}
    (h : t.insertIfAbsent r = some t') (hx : x ∈ t'.rows) :
    x ∈ t.rows ∨ x = r ∧ t.find? (key r) = none := by
  unfold insertIfAbsent at h
  cases hf : t.find? (key r) with
  | some r₀ =>
      rw [hf] at h
      obtain rfl := Option.some.inj h
      exact .inl hx
  | none =>
      rw [hf] at h
      obtain ⟨hc, hk, rfl⟩ := insert?_eq_some h
      rcases List.mem_append.mp hx with hx | hx
      · exact .inl hx
      · exact .inr ⟨by simpa using hx, rfl⟩

theorem subset_insertIfAbsent {t t' : Table ρ key check} {r x : ρ}
    (h : t.insertIfAbsent r = some t') (hx : x ∈ t.rows) : x ∈ t'.rows := by
  unfold insertIfAbsent at h
  split at h
  · obtain rfl := Option.some.inj h; exact hx
  · obtain ⟨hc, hk, rfl⟩ := insert?_eq_some h
    exact List.mem_append_left _ hx

/-- An insert that may conflict fails only for the constraint. -/
theorem insertIfAbsent_eq_none {t : Table ρ key check} {r : ρ} (h : t.insertIfAbsent r = none) :
    t.find? (key r) = none ∧ ¬ check r := by
  unfold insertIfAbsent insert? at h
  split at h
  · cases h
  · rename_i hk
    split at h
    · cases h
    · rename_i hc
      exact ⟨hk, fun hr => hc ⟨hr, hk⟩⟩

/-- `UPDATE … SET f WHERE key = k AND p RETURNING *`: the table after the statement with the row
it changed, if one matched; `none` when the new row violates the constraint. -/
def updateAt (t : Table ρ key check) (k : κ) (p : ρ → Bool) (f : ρ → ρ) :
    Option (Table ρ key check × Option ρ) :=
  match t.find? k with
  | none => some (t, none)
  | some r =>
      if p r then
        if h : check (f r) then some (t.replace (f r) h, some (f r)) else none
      else some (t, none)

theorem updateAt_of_match {t : Table ρ key check} {k : κ} {p : ρ → Bool} {f : ρ → ρ} {r : ρ}
    (hk : t.find? k = some r) (hp : p r = true) (hc : check (f r)) :
    t.updateAt k p f = some (t.replace (f r) hc, some (f r)) := by
  simp only [updateAt, hk, hp, if_true, dif_pos hc]

theorem updateAt_of_no_match {t : Table ρ key check} {k : κ} {p : ρ → Bool} {f : ρ → ρ}
    (h : ∀ r, t.find? k = some r → p r = false) : t.updateAt k p f = some (t, none) := by
  unfold updateAt
  cases hk : t.find? k with
  | none => rfl
  | some r => simp [h r hk]

/-- An update fails only for the constraint. -/
theorem updateAt_eq_none {t : Table ρ key check} {k : κ} {p : ρ → Bool} {f : ρ → ρ}
    (h : t.updateAt k p f = none) : ∃ r, t.find? k = some r ∧ p r = true ∧ ¬ check (f r) := by
  unfold updateAt at h
  split at h
  · cases h
  · rename_i r hk
    split at h
    · rename_i hp
      split at h
      · cases h
      · rename_i hc
        exact ⟨r, hk, hp, hc⟩
    · cases h

/-- What an `UPDATE` that keeps the key can do: nothing, or change the one row it matches. -/
theorem updateAt_cases {t t' : Table ρ key check} {k : κ} {p : ρ → Bool} {f : ρ → ρ}
    {o : Option ρ} (hkey : ∀ r, key (f r) = key r) (h : t.updateAt k p f = some (t', o)) :
    (o = none ∧ t' = t ∧ ∀ r, t.find? k = some r → p r = false) ∨
    (∃ r, t.find? k = some r ∧ p r = true ∧ o = some (f r) ∧ check (f r) ∧
      (∀ k', t'.find? k' = if k = k' then some (f r) else t.find? k') ∧
      ∀ x ∈ t'.rows, x = f r ∨ x ∈ t.rows) := by
  unfold updateAt at h
  cases hf : t.find? k with
  | none =>
      rw [hf] at h
      obtain ⟨rfl, rfl⟩ : t = t' ∧ none = o := by simpa using h
      exact .inl ⟨rfl, rfl, by simp⟩
  | some r =>
      rw [hf] at h
      simp only at h
      split at h
      · rename_i hp
        split at h
        · rename_i hc
          obtain ⟨rfl, rfl⟩ : t.replace (f r) hc = t' ∧ some (f r) = o := by simpa using h
          refine .inr ⟨r, rfl, hp, rfl, hc, fun k' => ?_, fun x hx => mem_replace hx⟩
          have hk : key (f r) = k := (hkey r).trans (key_of_find? hf)
          rw [find?_replace, hk]
          by_cases e : k = k'
          · subst e; simp [hf]
          · simp [e]
        · cases h
      · rename_i hp
        obtain ⟨rfl, rfl⟩ : t = t' ∧ none = o := by simpa using h
        exact .inl ⟨rfl, rfl, fun r' hr' => by
          obtain rfl := Option.some.inj hr'; simpa using hp⟩

end Table
