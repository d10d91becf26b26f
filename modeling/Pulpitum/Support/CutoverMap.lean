import Mathlib
import Pulpitum.Support.Cutover

/-!
# Support — Cutover, renamed

A cutover under other names of its buckets and with its records in another form: `World.map σ f`
moves the bucket at `b` to `σ b` and turns each of its records `r` into `f r`.  Names that are no
`σ b` are those of buckets that were never used.

* `Step.map`: **a step, renamed, is a step.**
* `Inv.map`: the renamed cutover keeps the invariant.
* `World.All.step`: what holds of every record appended holds of every record there is.
-/

namespace Cutover

variable {κ κ' ρ ρ' ω : Type}

/-! ### Renaming -/

/-- A bucket with its records turned by `f`. -/
def Cell.map (f : ρ → ρ') (c : Cell ρ ω) : Cell ρ' ω := ⟨c.phase, c.gen, c.rows.map f⟩

/-- What has been done, renamed. -/
def Facts.map (σ : κ → κ') (f : ρ → ρ') (F : Facts κ ρ ω) : Facts κ' ρ' ω where
  snapped b g rs := ∃ b₀ rs₀, σ b₀ = b ∧ rs₀.map f = rs ∧ F.snapped b₀ g rs₀
  stored b g rs k := ∃ b₀ rs₀, σ b₀ = b ∧ rs₀.map f = rs ∧ F.stored b₀ g rs₀ k
  appended b r := ∃ b₀ r₀, σ b₀ = b ∧ f r₀ = r ∧ F.appended b₀ r₀

/-- The cutover with the bucket `b` at `σ b` and the record `r` as `f r`. -/
noncomputable def World.map (σ : κ → κ') (f : ρ → ρ') (w : World κ ρ ω) : World κ' ρ' ω where
  cell := Function.extend σ (fun b => (w.cell b).map f) fun _ => ⟨.hot, 0, []⟩
  object key := (w.object key).map (List.map f)
  facts := w.facts.map σ f
  applied := Function.extend σ (fun b => (w.applied b).map f) fun _ => []

variable {σ : κ → κ'} {f : ρ → ρ'} {w w' : World κ ρ ω} {b : κ}

theorem map_cell (hσ : σ.Injective) (w : World κ ρ ω) (b : κ) :
    (w.map σ f).cell (σ b) = (w.cell b).map f := by
  simp only [World.map, hσ.extend_apply]

theorem map_applied (hσ : σ.Injective) (w : World κ ρ ω) (b : κ) :
    (w.map σ f).applied (σ b) = (w.applied b).map f := by
  simp only [World.map, hσ.extend_apply]

theorem map_phase (hσ : σ.Injective) (w : World κ ρ ω) (b : κ) :
    ((w.map σ f).cell (σ b)).phase = (w.cell b).phase := by
  rw [map_cell hσ]
  rfl

/-- What readers are given is what they were given, turned by `f`. -/
theorem map_visible (hσ : σ.Injective) (w : World κ ρ ω) (b : κ) :
    (w.map σ f).visible (σ b) = (w.visible b).map f := by
  unfold World.visible
  rw [map_phase hσ]
  cases (w.cell b).phase with
  | hot | archiving => rw [map_cell hσ]; rfl
  | archived key d =>
      change ((w.object key).map (List.map f)).getD [] = ((w.object key).getD []).map f
      cases w.object key <;> rfl

/-- A bucket with no name in `κ` was never used. -/
theorem map_cell_of_notMem {b' : κ'} (hb : ¬ ∃ b, σ b = b') :
    (w.map σ f).cell b' = ⟨.hot, 0, []⟩ := by
  simp only [World.map, Function.extend_apply' _ _ _ hb]

theorem map_applied_of_notMem {b' : κ'} (hb : ¬ ∃ b, σ b = b') :
    (w.map σ f).applied b' = [] := by
  simp only [World.map, Function.extend_apply' _ _ _ hb]

/-- **The invariant, renamed.** -/
theorem Inv.map (hσ : σ.Injective) (h : Inv w) : Inv (w.map σ f) where
  snapped_le := by
    rintro b' g rs ⟨b, rs₀, rfl, rfl, hs⟩
    rw [map_cell hσ]
    exact h.snapped_le hs
  snapped_live := by
    rintro b' g rs ⟨b, rs₀, rfl, rfl, hs⟩ hg hp
    rw [map_cell hσ] at hg hp ⊢
    exact congrArg (List.map f) (h.snapped_live hs hg hp)
  snapped_unique := by
    rintro b' g rs rs' ⟨b, rs₀, rfl, rfl, hs⟩ ⟨b₁, rs₁, hb, rfl, hs'⟩
    obtain rfl := hσ hb
    rw [h.snapped_unique hs hs']
  stored_snapped := by
    rintro b' g rs k ⟨b, rs₀, hb, hrs, hs⟩
    exact ⟨b, rs₀, hb, hrs, h.stored_snapped hs⟩
  stored_object := by
    rintro b' g rs k ⟨b, rs₀, -, rfl, hs⟩
    exact congrArg (Option.map (List.map f)) (h.stored_object hs)
  published := by
    intro b' k c hp
    by_cases hb : ∃ b, σ b = b'
    · obtain ⟨b, rfl⟩ := hb
      rw [map_phase hσ] at hp
      obtain ⟨g, rs, hs, hrows⟩ := h.published hp
      refine ⟨g, rs.map f, ⟨b, rs, rfl, rfl, hs⟩, fun hc => ?_⟩
      rw [map_cell hσ]
      exact congrArg (List.map f) (hrows hc)
    · rw [map_cell_of_notMem hb] at hp
      cases hp
  visible_perm := by
    intro b'
    by_cases hb : ∃ b, σ b = b'
    · obtain ⟨b, rfl⟩ := hb
      rw [map_visible hσ, map_applied hσ]
      exact (h.visible_perm b).map f
    · rw [map_applied_of_notMem hb, World.visible, map_cell_of_notMem hb]
  appended_mem := by
    rintro b' r ⟨b, r₀, rfl, rfl, ha⟩
    rw [map_applied hσ]
    exact List.mem_map_of_mem (h.appended_mem ha)

/-! ### Steps -/

theorem World.eq_of {w w' : World κ ρ ω} (hc : w.cell = w'.cell) (ho : w.object = w'.object)
    (hf : w.facts = w'.facts) (ha : w.applied = w'.applied) : w = w' := by
  cases w
  cases w'
  congr

theorem map_snap (F : Facts κ ρ ω) (b : κ) (g : ℕ) (rs : List ρ) :
    (F.map σ f).snap (σ b) g (rs.map f) = (F.snap b g rs).map σ f := by
  unfold Facts.snap Facts.map
  congr 1
  funext b' g' rs'
  refine propext ⟨?_, ?_⟩
  · rintro (⟨b₀, rs₀, hb, hrs, hs⟩ | ⟨rfl, rfl, rfl⟩)
    · exact ⟨b₀, rs₀, hb, hrs, .inl hs⟩
    · exact ⟨b, rs, rfl, rfl, .inr ⟨rfl, rfl, rfl⟩⟩
  · rintro ⟨b₀, rs₀, rfl, rfl, hs | ⟨rfl, rfl, rfl⟩⟩
    · exact .inl ⟨b₀, rs₀, rfl, rfl, hs⟩
    · exact .inr ⟨rfl, rfl, rfl⟩

theorem map_store (F : Facts κ ρ ω) (b : κ) (g : ℕ) (rs : List ρ) (k : ω) :
    (F.map σ f).store (σ b) g (rs.map f) k = (F.store b g rs k).map σ f := by
  unfold Facts.store Facts.map
  congr 1
  funext b' g' rs' k'
  refine propext ⟨?_, ?_⟩
  · rintro (⟨b₀, rs₀, hb, hrs, hs⟩ | ⟨rfl, rfl, rfl, rfl⟩)
    · exact ⟨b₀, rs₀, hb, hrs, .inl hs⟩
    · exact ⟨b, rs, rfl, rfl, .inr ⟨rfl, rfl, rfl, rfl⟩⟩
  · rintro ⟨b₀, rs₀, rfl, rfl, hs | ⟨rfl, rfl, rfl, rfl⟩⟩
    · exact .inl ⟨b₀, rs₀, rfl, rfl, hs⟩
    · exact .inr ⟨rfl, rfl, rfl, rfl⟩

theorem map_append (F : Facts κ ρ ω) (b : κ) (r : ρ) :
    (F.map σ f).append (σ b) (f r) = (F.append b r).map σ f := by
  unfold Facts.append Facts.map
  congr 1
  funext b' r'
  refine propext ⟨?_, ?_⟩
  · rintro (⟨b₀, r₀, hb, hr, ha⟩ | ⟨rfl, rfl⟩)
    · exact ⟨b₀, r₀, hb, hr, .inl ha⟩
    · exact ⟨b, r, rfl, rfl, .inr ⟨rfl, rfl⟩⟩
  · rintro ⟨b₀, r₀, rfl, rfl, ha | ⟨rfl, rfl⟩⟩
    · exact .inl ⟨b₀, r₀, rfl, rfl, ha⟩
    · exact .inr ⟨rfl, rfl⟩

variable [DecidableEq κ] [DecidableEq κ']

theorem extend_update {β : Type*} (hσ : σ.Injective) (g : κ → β) (e : κ' → β) (b : κ) (v : β) :
    Function.extend σ (Function.update g b v) e =
      Function.update (Function.extend σ g e) (σ b) v := by
  funext b'
  by_cases hb : ∃ b, σ b = b'
  · obtain ⟨b₁, rfl⟩ := hb
    rw [hσ.extend_apply, Function.update_apply, Function.update_apply, hσ.extend_apply]
    simp only [hσ.eq_iff]
  · have hne : b' ≠ σ b := fun h => hb ⟨b, h.symm⟩
    rw [Function.extend_apply' _ _ _ hb, Function.update_of_ne hne, Function.extend_apply' _ _ _ hb]

theorem extend_map_update {α : Type*} (hσ : σ.Injective) (g : κ → List α) (b : κ) (v : List α)
    (f : α → ρ') :
    Function.extend σ (fun b' => (Function.update g b v b').map f) (fun _ => []) =
      Function.update (Function.extend σ (fun b' => (g b').map f) fun _ => []) (σ b) (v.map f) := by
  rw [← extend_update hσ]
  congr 1
  funext b'
  by_cases e : b' = b
  · subst e
    simp
  · simp [e]

theorem map_set (hσ : σ.Injective) (w : World κ ρ ω) (b : κ) (c : Cell ρ ω) :
    (w.set b c).map σ f = (w.map σ f).set (σ b) (c.map f) := by
  have hcell : (fun b' => ((w.set b c).cell b').map f) =
      Function.update (fun b' => (w.cell b').map f) b (c.map f) := by
    funext b'
    by_cases e : b' = b
    · subst e
      simp [World.set]
    · simp [World.set, e]
  unfold World.map
  rw [hcell, extend_update hσ]
  rfl

variable [DecidableEq ω]

theorem Step.congr {w₁ : World κ ρ ω} {l : Option (κ × ρ)} (h : Step w l w') (he : w' = w₁) :
    Step w l w₁ := he ▸ h

/-- **A step, renamed, is a step.** -/
theorem Step.map (hσ : σ.Injective) {l : Option (κ × ρ)} (h : Step w l w') :
    Step (w.map σ f) (l.map (Prod.map σ f)) (w'.map σ f) := by
  -- a step that changes one bucket and nothing else
  have set : ∀ {b : κ} {c : Cell ρ ω} {c' : Cell ρ' ω}, c' = c.map f →
      Step (w.map σ f) none ((w.map σ f).set (σ b) c') →
      Step (w.map σ f) none ((w.set b c).map σ f) := by
    rintro b c c' rfl hs
    rwa [map_set hσ]
  cases h with
  | @append b r rows hp hr =>
      have hrows : (rows.map f).Perm (f r :: ((w.map σ f).cell (σ b)).rows) := by
        rw [map_cell hσ]
        exact hr.map f
      refine (Step.append ((map_phase hσ w b).trans hp) hrows).congr (World.eq_of ?_ rfl ?_ ?_)
      · have hset := congrArg World.cell (map_set (f := f) hσ w b { w.cell b with rows := rows })
        rw [map_cell hσ]
        exact hset.symm
      · exact map_append ..
      · rw [map_applied hσ]
        exact (extend_map_update hσ w.applied b (r :: w.applied b) f).symm
  | @claim b hp =>
      refine set (by rw [map_cell hσ]; rfl) (.claim ?_)
      rw [map_phase hσ]
      exact hp
  | @claimCleanup b key hp =>
      exact set (by rw [map_cell hσ]; rfl) (.claimCleanup ((map_phase hσ w b).trans hp))
  | @snapshot b hp =>
      refine (Step.snapshot ((map_phase hσ w b).trans hp)).congr (World.eq_of rfl rfl ?_ rfl)
      rw [map_cell hσ]
      exact map_snap ..
  | @put b g rs key hsn hk =>
      have hsnapped : (w.map σ f).facts.snapped (σ b) g (rs.map f) := ⟨b, rs, rfl, rfl, hsn⟩
      have hown : ∀ {b' g' rs'}, (w.map σ f).facts.stored b' g' rs' key → b' = σ b ∧ g' = g := by
        rintro b' g' rs' ⟨b₀, rs₀, rfl, -, hst⟩
        obtain ⟨rfl, rfl⟩ := hk hst
        exact ⟨rfl, rfl⟩
      refine (Step.put hsnapped hown).congr (World.eq_of rfl ?_ (map_store ..) rfl)
      funext key'
      by_cases e : key' = key
      · subst e
        simp [World.map]
      · simp [World.map, e]
  | @publish b rs key hp hst =>
      have hstored : (w.map σ f).facts.stored (σ b)
          ((w.map σ f).cell (σ b)).gen (rs.map f) key := by
        rw [map_cell hσ]
        exact ⟨b, rs, rfl, rfl, hst⟩
      exact set (by rw [map_cell hσ]; rfl) (.publish ((map_phase hσ w b).trans hp) hstored)
  | @clean b key hp =>
      exact set (by rw [map_cell hσ]; rfl) (.clean ((map_phase hσ w b).trans hp))
  | @reopen b hp =>
      exact set (by rw [map_cell hσ]; rfl) (.reopen ((map_phase hσ w b).trans hp))
  | skip => exact .skip

/-! ### Every record -/

/-- Every record that was appended, is in a bucket or in a snapshot has the property. -/
structure World.All (P : ρ → Prop) (w : World κ ρ ω) : Prop where
  applied : ∀ b, ∀ r ∈ w.applied b, P r
  rows : ∀ b, ∀ r ∈ (w.cell b).rows, P r
  snapped : ∀ {b g rs}, w.facts.snapped b g rs → ∀ r ∈ rs, P r

namespace World.All

variable {P : ρ → Prop}

omit [DecidableEq κ] [DecidableEq ω] in
theorem init : (World.init : World κ ρ ω).All P :=
  ⟨fun _ => List.forall_mem_nil _, fun _ => List.forall_mem_nil _, fun h => h.elim⟩

omit [DecidableEq ω] in
/-- One bucket changes. -/
theorem rows_set (h : w.All P) {c : Cell ρ ω} (hc : ∀ r ∈ c.rows, P r) :
    ∀ b', ∀ r ∈ ((w.set b c).cell b').rows, P r := by
  intro b'
  by_cases e : b' = b
  · subst e
    simpa [World.set] using hc
  · simpa [World.set, e] using h.rows b'

/-- **What holds of every record appended holds of every record.** -/
theorem step {l : Option (κ × ρ)} (h : w.All P) (hl : ∀ b r, l = some (b, r) → P r)
    (hs : Step w l w') : w'.All P := by
  have happlied : ∀ b, ∀ r ∈ w'.applied b, P r := by
    intro b r hr
    rw [hs.applied_eq b, List.mem_append, List.mem_filterMap] at hr
    rcases hr with ⟨⟨b', r'⟩, hmem, hr⟩ | hr
    · rw [Option.ite_none_right_eq_some] at hr
      obtain ⟨-, hr⟩ := hr
      cases hr
      exact hl b' _ (Option.mem_toList.mp hmem)
    · exact h.applied b r hr
  suffices hrest : (∀ b, ∀ r ∈ (w'.cell b).rows, P r) ∧
      ∀ {b g rs}, w'.facts.snapped b g rs → ∀ r ∈ rs, P r from ⟨happlied, hrest.1, hrest.2⟩
  clear happlied
  cases hs with
  | @append b r rows hp hr =>
      have hrows : ∀ x ∈ rows, P x := by
        intro x hx
        rcases List.mem_cons.mp (hr.mem_iff.mp hx) with rfl | hx
        · exact hl b x rfl
        · exact h.rows b x hx
      exact ⟨h.rows_set hrows, h.snapped⟩
  | @claim b | @claimCleanup b | @publish b | @reopen b => exact ⟨h.rows_set (h.rows b), h.snapped⟩
  | clean => exact ⟨h.rows_set (List.forall_mem_nil _), h.snapped⟩
  | @snapshot b =>
      refine ⟨h.rows, ?_⟩
      rintro b' g rs (hs | ⟨rfl, rfl, rfl⟩)
      · exact h.snapped hs
      · exact h.rows b'
  | put | skip => exact ⟨h.rows, h.snapped⟩

end World.All

end Cutover
