import Mathlib

/-!
# Support — Memo

Caches of a partial function.  A cache is a finite map from keys to entries, an entry holds a
value and a stamp, and the entry with the least stamp is the one to evict.  `Coherent f value c`
says that every entry of `c` holds the value of `f` at its key; whatever a cache drops, it stays
coherent, and it stays so while `f` grows.

* `Coherent.insert`, `Coherent.erase`, `Coherent.mono`: the rules for `Coherent`.
* `size_insert_of_mem`, `size_insert_of_notMem`, `size_erase_of_mem`: the rules for the number of
  entries.
* `weight_insert`, `weight_erase`: the rules for the sum of the entries' weights.
-/

namespace Memo

variable {κ ε ν : Type}

/-- The number of entries. -/
def size (c : AList fun _ : κ => ε) : ℕ := c.keys.length

/-- The key of the entry with the least stamp. -/
def oldest (stamp : ε → ℕ) (c : AList fun _ : κ => ε) : Option κ :=
  (c.entries.argmin fun x => stamp x.2).map Sigma.fst

variable {c : AList fun _ : κ => ε} {k k' : κ} {e : ε} {stamp : ε → ℕ}

theorem mem_of_oldest (h : oldest stamp c = some k) : k ∈ c := by
  obtain ⟨x, hx, rfl⟩ := Option.map_eq_some_iff.mp h
  exact AList.mem_keys.mpr (List.mem_map.mpr ⟨x, List.argmin_mem hx, rfl⟩)

theorem size_of_oldest_eq_none (h : oldest stamp c = none) : size c = 0 := by
  have hnil : c.entries = [] := List.argmin_eq_none.mp (Option.map_eq_none_iff.mp h)
  rw [size, AList.keys, hnil]
  rfl

variable [DecidableEq κ]

theorem size_insert_of_mem (h : k ∈ c) : size (c.insert k e) = size c := by
  have hk : k ∈ c.keys := h
  rw [size, AList.keys_insert, List.length_cons, List.length_erase_of_mem hk]
  have : 0 < c.keys.length := List.length_pos_of_mem hk
  unfold size
  omega

theorem size_insert_of_notMem (h : k ∉ c) : size (c.insert k e) = size c + 1 := by
  have hk : k ∉ c.keys := h
  rw [size, AList.keys_insert, List.length_cons, List.erase_of_not_mem hk, size]

theorem size_insert_le : size (c.insert k e) ≤ size c + 1 := by
  by_cases h : k ∈ c
  · rw [size_insert_of_mem h]
    exact Nat.le_succ _
  · rw [size_insert_of_notMem h]

theorem size_erase_of_mem (h : k ∈ c) : size (c.erase k) + 1 = size c := by
  have hk : k ∈ c.keys := h
  rw [size, AList.keys_erase, List.length_erase_of_mem hk]
  have : 0 < c.keys.length := List.length_pos_of_mem hk
  unfold size
  omega

theorem size_erase_le : size (c.erase k) ≤ size c := by
  rw [size, AList.keys_erase]
  exact (List.erase_sublist).length_le

/-! ### Weight -/

section Weight

variable {w : ε → ℕ}

/-- The sum of the weights of the entries. -/
def weight (w : ε → ℕ) (c : AList fun _ : κ => ε) : ℕ := (c.entries.map fun x => w x.2).sum

omit [DecidableEq κ] in
@[simp] theorem weight_empty : weight w (∅ : AList fun _ : κ => ε) = 0 := rfl

omit [DecidableEq κ] in
theorem weight_of_size_eq_zero (h : size c = 0) : weight w c = 0 := by
  have hnil : c.entries = [] := by
    rw [← List.map_eq_nil_iff (f := Sigma.fst)]
    exact List.length_eq_zero_iff.mp h
  rw [weight, hnil]
  rfl

/-- A new entry replaces the one that its key has. -/
theorem weight_insert : weight w (c.insert k e) = w e + weight w (c.erase k) := by
  simp [weight, AList.insert, AList.erase, List.kinsert_def]

theorem erase_of_lookup_eq_none (h : c.lookup k = none) : c.erase k = c :=
  AList.ext (List.kerase_of_notMem_keys (AList.lookup_eq_none.mp h))

/-- An entry that goes takes its weight with it. -/
theorem weight_erase (h : c.lookup k = some e) : weight w (c.erase k) + w e = weight w c := by
  have hk : k ∈ c.entries.keys := AList.lookup_isSome.mp (by simp [h])
  obtain ⟨e', l₁, l₂, -, hl, herase⟩ := List.exists_of_kerase hk
  have he : e' = e := by
    have hmem : e' ∈ c.lookup k := AList.mem_lookup_iff.mpr (by simp [hl])
    exact (Option.some.inj (h.symm.trans hmem)).symm
  have hsum : weight w (c.erase k) = ((l₁ ++ l₂).map fun x => w x.2).sum :=
    congrArg (fun l => (l.map fun x => w x.2).sum) herase
  rw [hsum, weight, hl, he]
  simp only [List.map_append, List.map_cons, List.sum_append, List.sum_cons]
  omega

end Weight

/-! ### Coherence -/

/-- Every entry holds the value of `f` at its key. -/
def Coherent (f : κ → Option ν) (value : ε → ν) (c : AList fun _ : κ => ε) : Prop :=
  ∀ k e, c.lookup k = some e → f k = some (value e)

namespace Coherent

variable {f f' : κ → Option ν} {value : ε → ν}

theorem empty : Coherent f value (∅ : AList fun _ : κ => ε) :=
  fun _ _ h => nomatch h

theorem insert (h : Coherent f value c) (hf : f k = some (value e)) :
    Coherent f value (c.insert k e) := by
  intro k' e' hl
  by_cases hk : k' = k
  · subst hk
    rw [AList.lookup_insert] at hl
    rw [← Option.some.inj hl]
    exact hf
  · rw [AList.lookup_insert_ne hk] at hl
    exact h k' e' hl

theorem erase (h : Coherent f value c) : Coherent f value (c.erase k) := by
  intro k' e' hl
  by_cases hk : k' = k
  · subst hk
    rw [AList.lookup_erase] at hl
    cases hl
  · rw [AList.lookup_erase_ne hk] at hl
    exact h k' e' hl

/-- A cache stays coherent while the function grows. -/
theorem mono (h : Coherent f value c) (hf : ∀ k v, f k = some v → f' k = some v) :
    Coherent f' value c :=
  fun k e hl => hf k _ (h k e hl)

end Coherent

end Memo
