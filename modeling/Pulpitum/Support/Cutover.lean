import Mathlib
import Pulpitum.Support.Runs

/-!
# Support — Cutover

A fenced cutover from a mutable tier to an immutable one, over any buckets, records and object
keys.  A bucket is *hot* (it takes appends), *archiving* (fenced) or *archived* under an object
key, with its hot rows cleaned or not.  Every claim of a bucket opens a new generation.

A worker takes a snapshot at the current generation, puts it in the object store under a key that
no other bucket or generation uses, and publishes that key if the generation is still current and
the bucket still fenced.  What workers have done is kept in `Facts`; a worker acts only on facts,
so nothing is assumed about how workers interleave, stop or fall behind.

* `Inv.step`: what each step preserves.
* `Inv.run`: **no append is lost or repeated** — after any run, the visible rows of a bucket are
  a rearrangement of the rows appended to it.
* `Step.archived_permanent`: a published key stays the bucket's key.
* `Step.fenced`: a fence keeps the rows it was closed over.
-/

namespace Cutover

variable {κ ρ ω : Type}

/-- Where reads of a bucket go, and whether it takes appends. -/
inductive Phase (ω : Type) where
  | hot
  | archiving
  | archived (key : ω) (cleaned : Bool)
deriving DecidableEq

/-- A bucket: its phase, the generation of its last claim, and its hot rows. -/
@[ext]
structure Cell (ρ ω : Type) where
  phase : Phase ω
  gen : ℕ
  rows : List ρ

/-- What workers and appenders have done so far. -/
structure Facts (κ ρ ω : Type) where
  /-- A snapshot of the bucket, taken at the generation, returned the rows. -/
  snapped : κ → ℕ → List ρ → Prop
  /-- The rows were put under the key, for the bucket and generation. -/
  stored : κ → ℕ → List ρ → ω → Prop
  /-- The record was appended to the bucket. -/
  appended : κ → ρ → Prop

namespace Facts

/-- The facts of `F` are facts of `G`. -/
structure Le (F G : Facts κ ρ ω) : Prop where
  snapped : ∀ {b g rs}, F.snapped b g rs → G.snapped b g rs
  stored : ∀ {b g rs k}, F.stored b g rs k → G.stored b g rs k
  appended : ∀ {b r}, F.appended b r → G.appended b r

theorem Le.refl (F : Facts κ ρ ω) : F.Le F := ⟨id, id, id⟩

theorem Le.trans {F G H : Facts κ ρ ω} (h₁ : F.Le G) (h₂ : G.Le H) : F.Le H :=
  ⟨fun h => h₂.snapped (h₁.snapped h), fun h => h₂.stored (h₁.stored h),
    fun h => h₂.appended (h₁.appended h)⟩

/-- No fact. -/
def none : Facts κ ρ ω := ⟨fun _ _ _ => False, fun _ _ _ _ => False, fun _ _ => False⟩

/-- One more snapshot. -/
def snap (F : Facts κ ρ ω) (b : κ) (g : ℕ) (rs : List ρ) : Facts κ ρ ω :=
  { F with snapped := fun b' g' rs' => F.snapped b' g' rs' ∨ (b' = b ∧ g' = g ∧ rs' = rs) }

/-- One more stored object. -/
def store (F : Facts κ ρ ω) (b : κ) (g : ℕ) (rs : List ρ) (k : ω) : Facts κ ρ ω :=
  { F with stored := fun b' g' rs' k' =>
      F.stored b' g' rs' k' ∨ (b' = b ∧ g' = g ∧ rs' = rs ∧ k' = k) }

/-- One more append. -/
def append (F : Facts κ ρ ω) (b : κ) (r : ρ) : Facts κ ρ ω :=
  { F with appended := fun b' r' => F.appended b' r' ∨ (b' = b ∧ r' = r) }

theorem le_snap (F : Facts κ ρ ω) (b : κ) (g : ℕ) (rs : List ρ) : F.Le (F.snap b g rs) :=
  ⟨.inl, id, id⟩

theorem le_store (F : Facts κ ρ ω) (b : κ) (g : ℕ) (rs : List ρ) (k : ω) :
    F.Le (F.store b g rs k) :=
  ⟨id, .inl, id⟩

theorem le_append (F : Facts κ ρ ω) (b : κ) (r : ρ) : F.Le (F.append b r) :=
  ⟨id, id, .inl⟩

end Facts

/-- The buckets, the object store, what has been done, and the appends in the order in which they
took effect, last first. -/
structure World (κ ρ ω : Type) where
  cell : κ → Cell ρ ω
  object : ω → Option (List ρ)
  facts : Facts κ ρ ω
  applied : κ → List ρ

/-- Every bucket hot and empty, no object. -/
def World.init : World κ ρ ω where
  cell := fun _ => ⟨.hot, 0, []⟩
  object := fun _ => none
  facts := .none
  applied := fun _ => []

/-- The rows a reader is given: the hot rows, or the object once the bucket is archived. -/
def World.visible (w : World κ ρ ω) (b : κ) : List ρ :=
  match (w.cell b).phase with
  | .hot | .archiving => (w.cell b).rows
  | .archived key _ => (w.object key).getD []

/-- What holds of every state of a run. -/
structure Inv (w : World κ ρ ω) : Prop where
  /-- No snapshot is of a generation to come. -/
  snapped_le : ∀ {b g rs}, w.facts.snapped b g rs → g ≤ (w.cell b).gen
  /-- While a bucket is fenced, a snapshot of its generation is its rows. -/
  snapped_live : ∀ {b g rs}, w.facts.snapped b g rs → (w.cell b).gen = g →
    (w.cell b).phase = .archiving → (w.cell b).rows = rs
  /-- Two snapshots of one generation are equal. -/
  snapped_unique : ∀ {b g rs rs'}, w.facts.snapped b g rs → w.facts.snapped b g rs' → rs = rs'
  stored_snapped : ∀ {b g rs k}, w.facts.stored b g rs k → w.facts.snapped b g rs
  /-- A stored object is not changed. -/
  stored_object : ∀ {b g rs k}, w.facts.stored b g rs k → w.object k = some rs
  /-- A published key names an object with the bucket's rows. -/
  published : ∀ {b k c}, (w.cell b).phase = .archived k c →
    ∃ g rs, w.facts.stored b g rs k ∧ (c = false → (w.cell b).rows = rs)
  visible_perm : ∀ b, (w.visible b).Perm (w.applied b)
  appended_mem : ∀ {b r}, w.facts.appended b r → r ∈ w.applied b

namespace Inv

theorem init : Inv (World.init : World κ ρ ω) where
  snapped_le := fun h => h.elim
  snapped_live := fun h => h.elim
  snapped_unique := fun h => h.elim
  stored_snapped := fun h => h.elim
  stored_object := fun h => h.elim
  published := fun h => by cases h
  visible_perm := fun _ => .refl _
  appended_mem := fun h => h.elim

end Inv

/-! ### Changing one bucket -/

variable [DecidableEq κ]

/-- One bucket changes. -/
def World.set (w : World κ ρ ω) (b : κ) (c : Cell ρ ω) : World κ ρ ω :=
  { w with cell := Function.update w.cell b c }

namespace Inv

/-- A change of one bucket keeps the invariant when its generation does not fall, its visible
rows stay, it is fenced at its old generation only if it was, with the same rows, and a
published key is stored. -/
theorem set {w : World κ ρ ω} (h : Inv w) {b : κ} {c : Cell ρ ω} (hgen : (w.cell b).gen ≤ c.gen)
    (hlive : c.gen = (w.cell b).gen → c.phase = .archiving →
      (w.cell b).phase = .archiving ∧ c.rows = (w.cell b).rows)
    (hpub : ∀ {k d}, c.phase = .archived k d →
      ∃ g rs, w.facts.stored b g rs k ∧ (d = false → c.rows = rs))
    (hvis : (w.set b c).visible b = w.visible b) : Inv (w.set b c) := by
  have same : (w.set b c).cell b = c := Function.update_self ..
  have other : ∀ {b'}, b' ≠ b → (w.set b c).cell b' = w.cell b' :=
    fun e => Function.update_of_ne e ..
  refine ⟨fun {b' g rs} hs => ?_, fun {b' g rs} hs hg hp => ?_, h.snapped_unique,
    h.stored_snapped, h.stored_object, fun {b' k d} hp => ?_, fun b' => ?_, h.appended_mem⟩
  · by_cases e : b' = b
    · subst e; rw [same]; exact (h.snapped_le hs).trans hgen
    · rw [other e]; exact h.snapped_le hs
  · by_cases e : b' = b
    · subst e
      rw [same] at hg hp ⊢
      -- a snapshot of the new generation would be of a generation to come
      have hold : c.gen = (w.cell b').gen := le_antisymm (hg ▸ h.snapped_le hs) hgen
      obtain ⟨hp', hr⟩ := hlive hold hp
      rw [hr]; exact h.snapped_live hs (hold ▸ hg) hp'
    · rw [other e] at hg hp ⊢; exact h.snapped_live hs hg hp
  · by_cases e : b' = b
    · subst e; rw [same] at hp ⊢; exact hpub hp
    · rw [other e] at hp ⊢; exact h.published hp
  · by_cases e : b' = b
    · subst e; rw [hvis]; exact h.visible_perm b'
    · have : (w.set b c).visible b' = w.visible b' := by
        unfold World.visible; rw [other e]; rfl
      rw [this]; exact h.visible_perm b'

theorem visible_set {w : World κ ρ ω} {b : κ} {c : Cell ρ ω} (b' : κ) :
    (w.set b c).visible b' =
      if b' = b then
        match c.phase with
        | .hot | .archiving => c.rows
        | .archived key _ => (w.object key).getD []
      else w.visible b' := by
  by_cases e : b' = b
  · subst e; simp [World.visible, World.set]
  · simp [World.visible, World.set, e]

end Inv

/-- The bucket was fenced at the generation with the rows: as long as that fence stands, it has
them. -/
def World.Fenced (w : World κ ρ ω) (b : κ) (g : ℕ) (rs : List ρ) : Prop :=
  g ≤ (w.cell b).gen ∧
    ((w.cell b).gen = g → (w.cell b).phase = .archiving → (w.cell b).rows = rs)

/-- A change of one bucket that raises its generation, or leaves it without a fence. -/
theorem World.Fenced.set {w : World κ ρ ω} {b b' : κ} {g : ℕ} {rs : List ρ} {c : Cell ρ ω}
    (h : w.Fenced b g rs)
    (hc : b = b' → (w.cell b).gen < c.gen ∨ c.gen = (w.cell b).gen ∧ c.phase ≠ .archiving) :
    (w.set b' c).Fenced b g rs := by
  by_cases e : b = b'
  · subst e
    have same : (w.set b c).cell b = c := Function.update_self ..
    rw [Fenced, same]
    rcases hc rfl with hlt | ⟨heq, hp⟩
    · exact ⟨h.1.trans hlt.le, fun hg => absurd (hg ▸ hlt) (not_lt_of_ge h.1)⟩
    · exact ⟨heq ▸ h.1, fun _ ha => absurd ha hp⟩
  · have other : (w.set b' c).cell b = w.cell b := Function.update_of_ne e ..
    rw [Fenced, other]
    exact h

/-! ### Steps -/

variable [DecidableEq ω]

/-- One step of one party.  The label of an append is the bucket and the record. -/
inductive Step : World κ ρ ω → Option (κ × ρ) → World κ ρ ω → Prop where
  /-- A hot bucket takes a record. -/
  | append {w : World κ ρ ω} {b : κ} {r : ρ} {rows : List ρ} (hp : (w.cell b).phase = .hot)
      (hr : rows.Perm (r :: (w.cell b).rows)) :
      Step w (some (b, r))
        { w.set b { w.cell b with rows := rows } with
          facts := w.facts.append b r
          applied := Function.update w.applied b (r :: w.applied b) }
  /-- A bucket that is not archived is fenced, at a new generation. -/
  | claim {w : World κ ρ ω} {b : κ} (hp : (w.cell b).phase = .hot ∨ (w.cell b).phase = .archiving) :
      Step w none (w.set b { w.cell b with phase := .archiving, gen := (w.cell b).gen + 1 })
  /-- Pending cleanup is taken over, at a new generation. -/
  | claimCleanup {w : World κ ρ ω} {b : κ} {key : ω}
      (hp : (w.cell b).phase = .archived key false) :
      Step w none (w.set b { w.cell b with gen := (w.cell b).gen + 1 })
  | snapshot {w : World κ ρ ω} {b : κ} (hp : (w.cell b).phase = .archiving) :
      Step w none { w with facts := w.facts.snap b (w.cell b).gen (w.cell b).rows }
  /-- A snapshot is put under a key that no other bucket or generation has used. -/
  | put {w : World κ ρ ω} {b : κ} {g : ℕ} {rs : List ρ} {key : ω} (hs : w.facts.snapped b g rs)
      (hk : ∀ {b' g' rs'}, w.facts.stored b' g' rs' key → b' = b ∧ g' = g) :
      Step w none
        { w with
          object := Function.update w.object key (some rs)
          facts := w.facts.store b g rs key }
  /-- The key of an object stored for the current generation is published. -/
  | publish {w : World κ ρ ω} {b : κ} {rs : List ρ} {key : ω}
      (hp : (w.cell b).phase = .archiving) (hs : w.facts.stored b (w.cell b).gen rs key) :
      Step w none (w.set b { w.cell b with phase := .archived key false })
  /-- The hot rows of a published bucket are deleted. -/
  | clean {w : World κ ρ ω} {b : κ} {key : ω} (hp : (w.cell b).phase = .archived key false) :
      Step w none (w.set b { w.cell b with phase := .archived key true, rows := [] })
  /-- A fenced bucket takes appends again. -/
  | reopen {w : World κ ρ ω} {b : κ} (hp : (w.cell b).phase = .archiving) :
      Step w none (w.set b { w.cell b with phase := .hot })
  | skip {w : World κ ρ ω} : Step w none w

/-- What has been done stays done. -/
theorem Step.facts_le {w w' : World κ ρ ω} {l : Option (κ × ρ)} (h : Step w l w') :
    w.facts.Le w'.facts := by
  cases h with
  | append => exact Facts.le_append ..
  | snapshot => exact Facts.le_snap ..
  | put => exact Facts.le_store ..
  | claim | claimCleanup | publish | clean | reopen | skip => exact Facts.Le.refl _

/-- Only an append changes the appends that took effect. -/
theorem Step.applied_eq {w w' : World κ ρ ω} {l : Option (κ × ρ)} (h : Step w l w') (b : κ) :
    w'.applied b = (l.toList.filterMap fun x => if x.1 = b then some x.2 else none) ++
      w.applied b := by
  cases h with
  | @append b' r =>
      by_cases e : b' = b
      · subst e; simp
      · simp [e, Function.update_of_ne (Ne.symm e)]
  | snapshot | put | claim | claimCleanup | publish | clean | reopen | skip => rfl

/-- A published key stays the bucket's key, and cleaned rows stay cleaned. -/
theorem Step.archived_grows {w w' : World κ ρ ω} {l : Option (κ × ρ)} (h : Step w l w') {b : κ}
    {key : ω} {d : Bool} (hb : (w.cell b).phase = .archived key d) :
    ∃ d', (w'.cell b).phase = .archived key d' ∧ (d = true → d' = true) := by
  -- the bucket that changes is another one, or was archived under this key
  have set : ∀ {b' : κ} {c : Cell ρ ω},
      (b = b' → ∃ d', c.phase = .archived key d' ∧ (d = true → d' = true)) →
      ∃ d', ((w.set b' c).cell b).phase = .archived key d' ∧ (d = true → d' = true) := by
    intro b' c hc
    by_cases e : b = b'
    · subst e
      simpa [World.set] using hc rfl
    · exact ⟨d, by simpa [World.set, e] using hb, id⟩
  cases h with
  | append hp => exact set fun e => by subst e; rw [hb] at hp; cases hp
  | claim hp => exact set fun e => by subst e; rw [hb] at hp; rcases hp with hp | hp <;> cases hp
  | claimCleanup hp => exact set fun e => by subst e; exact ⟨d, hb, id⟩
  | publish hp => exact set fun e => by subst e; rw [hb] at hp; cases hp
  | clean hp =>
      exact set fun e => by subst e; rw [hb] at hp; cases hp; exact ⟨true, rfl, fun _ => rfl⟩
  | reopen hp => exact set fun e => by subst e; rw [hb] at hp; cases hp
  | snapshot | put | skip => exact ⟨d, hb, id⟩

/-- **A published key stays the bucket's key.** -/
theorem Step.archived_permanent {w w' : World κ ρ ω} {l : Option (κ × ρ)} (h : Step w l w') {b : κ}
    {key : ω} {d : Bool} (hb : (w.cell b).phase = .archived key d) :
    ∃ d', (w'.cell b).phase = .archived key d' := by
  obtain ⟨d', hd, -⟩ := h.archived_grows hb
  exact ⟨d', hd⟩

/-! ### Fences -/

/-- **A fence keeps the rows it was closed over**, until it is opened or closed anew. -/
theorem Step.fenced {w w' : World κ ρ ω} {l : Option (κ × ρ)} (h : Step w l w') {b : κ} {g : ℕ}
    {rs : List ρ} (hb : w.Fenced b g rs) : w'.Fenced b g rs := by
  cases h with
  | @append b' r rows hp =>
      have hset : (w.set b' { w.cell b' with rows := rows }).Fenced b g rs := hb.set fun e => by
        subst e
        exact .inr ⟨rfl, fun ha => by cases hp.symm.trans ha⟩
      exact hset
  | claim => exact hb.set fun e => .inl (by subst e; exact Nat.lt_succ_self _)
  | claimCleanup => exact hb.set fun e => .inl (by subst e; exact Nat.lt_succ_self _)
  | publish => exact hb.set fun e => .inr ⟨by subst e; rfl, fun ha => by cases ha⟩
  | clean => exact hb.set fun e => .inr ⟨by subst e; rfl, fun ha => by cases ha⟩
  | reopen => exact hb.set fun e => .inr ⟨by subst e; rfl, fun ha => by cases ha⟩
  | snapshot | put | skip => exact hb

/-- Some steps lead from the first state to the second. -/
abbrev Leads : World κ ρ ω → World κ ρ ω → Prop :=
  Relation.ReflTransGen fun w w' => ∃ l, Step w l w'

namespace Leads

variable {w w' : World κ ρ ω} {b : κ}

theorem facts_le (h : Leads w w') : w.facts.Le w'.facts := by
  induction h with
  | refl => exact .refl _
  | tail _ hs ih =>
      obtain ⟨l, hs⟩ := hs
      exact ih.trans hs.facts_le

theorem fenced {g : ℕ} {rs : List ρ} (h : Leads w w') (hb : w.Fenced b g rs) :
    w'.Fenced b g rs := by
  induction h with
  | refl => exact hb
  | tail _ hs ih =>
      obtain ⟨l, hs⟩ := hs
      exact hs.fenced ih

theorem archived {key : ω} {d : Bool} (h : Leads w w') (hb : (w.cell b).phase = .archived key d) :
    ∃ d', (w'.cell b).phase = .archived key d' ∧ (d = true → d' = true) := by
  induction h with
  | refl => exact ⟨d, hb, id⟩
  | tail _ hs ih =>
      obtain ⟨l, hs⟩ := hs
      obtain ⟨d₁, h₁, hd₁⟩ := ih
      obtain ⟨d₂, h₂, hd₂⟩ := hs.archived_grows h₁
      exact ⟨d₂, h₂, fun hd => hd₂ (hd₁ hd)⟩

end Leads

namespace Inv

/-- **One step keeps the invariant.** -/
theorem step {w w' : World κ ρ ω} {l : Option (κ × ρ)} (h : Inv w) (hs : Step w l w') : Inv w' := by
  cases hs with
  | skip => exact h
  | @claim b hp =>
      refine h.set (Nat.le_succ _) (fun hg _ => absurd hg (Nat.succ_ne_self _))
        (fun hk => by cases hk) ?_
      rw [visible_set, if_pos rfl]
      rcases hp with hp | hp <;> simp [World.visible, hp]
  | @claimCleanup b key hp =>
      refine h.set (Nat.le_succ _) (fun hg _ => absurd hg (Nat.succ_ne_self _))
        (fun hk => h.published hk) ?_
      rw [visible_set, if_pos rfl]
      simp [World.visible, hp]
  | @publish b rs key hp hst =>
      have hrows : (w.cell b).rows = rs := h.snapped_live (h.stored_snapped hst) rfl hp
      refine h.set le_rfl (fun _ hk => by cases hk) (fun hk => ?_) ?_
      · obtain ⟨rfl, rfl⟩ := Phase.archived.inj hk
        exact ⟨_, rs, hst, fun _ => hrows⟩
      · rw [visible_set, if_pos rfl]
        simp [World.visible, hp, h.stored_object hst, hrows]
  | @clean b key hp =>
      obtain ⟨g, rs, hst, -⟩ := h.published hp
      refine h.set le_rfl (fun _ hk => by cases hk) (fun hk => ?_) ?_
      · obtain ⟨rfl, rfl⟩ := Phase.archived.inj hk
        exact ⟨g, rs, hst, fun hc => by cases hc⟩
      · rw [visible_set, if_pos rfl]
        simp [World.visible, hp]
  | @reopen b hp =>
      refine h.set le_rfl (fun _ hk => by cases hk) (fun hk => by cases hk) ?_
      rw [visible_set, if_pos rfl]
      simp [World.visible, hp]
  | @snapshot b hp =>
      have hvis : ∀ b', World.visible
          { w with facts := w.facts.snap b (w.cell b).gen (w.cell b).rows } b' = w.visible b' :=
        fun _ => rfl
      refine ⟨fun {b' g rs} hs => ?_, fun {b' g rs} hs hg hp' => ?_, fun {b' g rs rs'} h₁ h₂ => ?_,
        fun hs => .inl (h.stored_snapped hs), h.stored_object, h.published,
        fun b' => (hvis b') ▸ h.visible_perm b', h.appended_mem⟩
      · rcases hs with hs | ⟨rfl, rfl, rfl⟩
        · exact h.snapped_le hs
        · exact le_rfl
      · rcases hs with hs | ⟨rfl, rfl, rfl⟩
        · exact h.snapped_live hs hg hp'
        · rfl
      · rcases h₁ with h₁ | ⟨rfl, rfl, rfl⟩ <;> rcases h₂ with h₂ | ⟨hb, hg, hrs⟩
        · exact h.snapped_unique h₁ h₂
        · subst hb hg hrs; exact (h.snapped_live h₁ rfl hp).symm
        · exact h.snapped_live h₂ rfl hp
        · exact hrs.symm
  | @put b g rs key hsn hk =>
      -- an object stored before under the same key holds the same rows
      have hobj : ∀ {b' g' rs' k'}, w.facts.stored b' g' rs' k' →
          Function.update w.object key (some rs) k' = some rs' := by
        intro b' g' rs' k' hs
        by_cases e : k' = key
        · subst e
          obtain ⟨rfl, rfl⟩ := hk hs
          rw [Function.update_self, h.snapped_unique hsn (h.stored_snapped hs)]
        · rw [Function.update_of_ne e]; exact h.stored_object hs
      refine ⟨h.snapped_le, h.snapped_live, h.snapped_unique, fun hs => ?_,
        fun {b' g' rs' k'} hs => ?_,
        fun hp => ?_, fun b' => ?_, h.appended_mem⟩
      · rcases hs with hs | ⟨rfl, rfl, rfl, rfl⟩
        · exact h.stored_snapped hs
        · exact hsn
      · rcases hs with hs | ⟨rfl, rfl, rfl, rfl⟩
        · exact hobj hs
        · exact Function.update_self ..
      · obtain ⟨g', rs', hst, hr⟩ := h.published hp
        exact ⟨g', rs', .inl hst, hr⟩
      · have hv : World.visible { w with
            object := Function.update w.object key (some rs)
            facts := w.facts.store b g rs key } b' = w.visible b' := by
          unfold World.visible
          cases hph : (w.cell b').phase with
          | hot | archiving => rfl
          | archived k c =>
              obtain ⟨g', rs', hst, -⟩ := h.published hph
              simp only [hobj hst, h.stored_object hst]
        rw [hv]; exact h.visible_perm b'
  | @append b r rows hp hr =>
      set w₁ : World κ ρ ω :=
        { w.set b { w.cell b with rows := rows } with
          facts := w.facts.append b r
          applied := Function.update w.applied b (r :: w.applied b) } with hw₁
      have same : w₁.cell b = { w.cell b with rows := rows } := Function.update_self ..
      have other : ∀ {b'}, b' ≠ b → w₁.cell b' = w.cell b' := fun e => Function.update_of_ne e ..
      refine ⟨fun {b' g rs} hs => ?_, fun {b' g rs} hs hg hp' => ?_, h.snapped_unique,
        h.stored_snapped, h.stored_object, fun {b' k c} hp' => ?_, fun b' => ?_,
        fun {b' r'} ha => ?_⟩
      · by_cases e : b' = b
        · subst e; rw [same]; exact h.snapped_le hs
        · rw [other e]; exact h.snapped_le hs
      · by_cases e : b' = b
        · subst e; rw [same, hp] at hp'; cases hp'
        · rw [other e] at hg hp' ⊢; exact h.snapped_live hs hg hp'
      · by_cases e : b' = b
        · subst e; rw [same, hp] at hp'; cases hp'
        · rw [other e] at hp' ⊢; exact h.published hp'
      · by_cases e : b' = b
        · subst e
          have h₀ : w.visible b' = (w.cell b').rows := by simp [World.visible, hp]
          have h₁ : w₁.visible b' = rows := by simp only [World.visible, same, hp]
          have h₂ : w₁.applied b' = r :: w.applied b' := Function.update_self ..
          rw [h₁, h₂]
          exact hr.trans ((h₀ ▸ h.visible_perm b').cons r)
        · have h₁ : w₁.visible b' = w.visible b' := by unfold World.visible; rw [other e]; rfl
          have h₂ : w₁.applied b' = w.applied b' := Function.update_of_ne e ..
          rw [h₁, h₂]; exact h.visible_perm b'
      · by_cases e : b' = b
        · subst e
          have h₂ : w₁.applied b' = r :: w.applied b' := Function.update_self ..
          rw [h₂]
          rcases ha with ha | ⟨-, rfl⟩
          · exact List.mem_cons_of_mem _ (h.appended_mem ha)
          · exact List.mem_cons_self ..
        · have h₂ : w₁.applied b' = w.applied b' := Function.update_of_ne e ..
          rw [h₂]
          rcases ha with ha | ⟨hb, -⟩
          · exact h.appended_mem ha
          · exact absurd hb e

/-- **No append is lost or repeated**: after any run, the visible rows of each bucket are a
rearrangement of the rows appended to it. -/
theorem run {w : World κ ρ ω} {ls : List (Option (κ × ρ))} (hr : Run Step .init ls w) : Inv w :=
  Run.invariant (I := Inv) (fun _ _ _ h hs => h.step hs) hr init

end Inv

end Cutover
