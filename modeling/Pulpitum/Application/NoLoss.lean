import Mathlib
import Pulpitum.Application.Discipline

/-!
# Application — NoLoss

Archival neither loses nor repeats a record, over any stores that refine the abstract cutover.  A
`Refinement` says what each store operation is in the terms of `Cutover`; `Sound` ties a state of
the system to a state of the cutover.

* `Sound.step`: every step of the system is a step of the cutover.
* `Sound.reaches`: so every state a run reaches is sound.
* `Sound.visible_perm`: in a sound state, what readers are given of a bucket is, up to its order,
  **what the appends that took effect stored in it**.
-/

namespace Pulpitum

open Cutover (Facts World)

variable {κ ρ : Type} [DecidableEq κ]

/-- The append to the cutover that the reply to an append stands for. -/
def Coding.appended (c : Coding κ ρ) (b : BucketId) (r : Record) :
    Except DurableBucketStoreError Unit → Option (κ × ρ)
  | .ok () => some (c.ident b, c.enc r)
  | .error _ => none

/-- The append is one of those there are, to a bucket that archival may be asked for, of a record of
the bucket's partition. -/
structure Coding.Admits (c : Coding κ ρ) (b : BucketId) (r : Record) : Prop where
  opens : c.Opens b r
  good : c.Good b
  partitionKey : b.partitionKey = r.partitionKey

theorem Coding.admits_plain (b : BucketId) (r : Record) (h : DurableTable.Routes b r) :
    Coding.plain.Admits b r :=
  ⟨h, h.canonical, h.partitionKey⟩

/-- The stores refine the cutover: every legitimate operation is a step of it. -/
structure Refinement (S : Services) (c : Coding κ ρ) where
  /-- The state of the stores is one of the cutover. -/
  Tracks : S.State → World κ ρ String → Prop
  serve : ∀ {s s' : S.State} {w : World κ ρ String} {q : Request} {r : q.Reply}, Tracks s w →
    Cutover.Inv w → c.Legit w.facts q → S.serve q s r s' →
      ∃ w', Cutover.Step w none w' ∧ Tracks s' w' ∧ c.Learned q r w'.facts
  append : ∀ {s s' : S.State} {w : World κ ρ String} {b : BucketId} {r : Record}
    {a : Except DurableBucketStoreError Unit}, Tracks s w → Cutover.Inv w → c.Good b →
      b.partitionKey = r.partitionKey → S.serve (.store (.append b r)) s a s' →
      ∃ w', Cutover.Step w (c.appended b r a) w' ∧ Tracks s' w'

/-- What refines the cutover after something in the stores is forgotten, refines it. -/
def Refinement.comap {S S' : Services} {c : Coding κ ρ} (R : Refinement S c)
    (forget : S'.State → S.State)
    (serve : ∀ {q s r s'}, S'.serve q s r s' → S.serve q (forget s) r (forget s')) :
    Refinement S' c where
  Tracks s w := R.Tracks (forget s) w
  serve ht hi hl hs := R.serve ht hi hl (serve hs)
  append ht hi hb hp hs := R.append ht hi hb hp (serve hs)

namespace Appender

/-- What the append stored in the bucket `k`, if it took effect there. -/
def stored (c : Coding κ ρ) (k : κ) (a : Appender) : Option ρ :=
  match a.sending with
  | .answered (.ok ()) => if c.ident a.bucket = k then some (c.enc a.record) else none
  | _ => none

theorem stored_eq_some {c : Coding κ ρ} {k : κ} {a : Appender} {x : ρ} :
    a.stored c k = some x ↔ a.TookEffect ∧ c.ident a.bucket = k ∧ c.enc a.record = x := by
  unfold stored TookEffect
  split
  · rename_i heff
    rw [heff, Option.ite_none_right_eq_some]
    simp
  · rename_i hno
    exact ⟨(nomatch ·), fun h => absurd h.1 hno⟩

/-- What holds of an append in every state. -/
structure Routed (c : Coding κ ρ) (a : Appender) : Prop where
  admits : c.Admits a.bucket a.record
  /-- An acknowledged append took effect. -/
  effect : a.Acknowledged → a.TookEffect

end Appender

/-- What the appends that took effect stored in the bucket `k`. -/
def System.stored {σ : Type} (c : Coding κ ρ) (s : System σ) (k : κ) : List ρ :=
  s.appenders.filterMap (Appender.stored c k)

theorem System.mem_stored {σ : Type} {c : Coding κ ρ} {s : System σ} {k : κ} {x : ρ} :
    x ∈ s.stored c k ↔
      ∃ a ∈ s.appenders, a.TookEffect ∧ c.ident a.bucket = k ∧ c.enc a.record = x := by
  rw [System.stored, List.mem_filterMap]
  exact exists_congr fun a => and_congr_right fun _ => Appender.stored_eq_some

variable {S : Services} {c : Coding κ ρ} {R : Refinement S c}

/-- The state of the system is one of the cutover. -/
structure Sound (R : Refinement S c) (s : System S.State) (w : World κ ρ String) : Prop where
  tracks : R.Tracks s.services w
  inv : Cutover.Inv w
  applied : ∀ k, (w.applied k).Perm (s.stored c k)
  appenders : ∀ a ∈ s.appenders, a.Routed c
  workers : ∀ t ∈ s.workers, t.Keeps c w.facts
  orphans : ∀ q ∈ s.orphans, c.Legit w.facts q

namespace Sound

/-- A step of the stores that no append is behind, with what it leaves to the others. -/
theorem serve {s s' : System S.State} {w w' : World κ ρ String} (h : Sound R s w)
    (hw : Cutover.Step w none w') (ht : R.Tracks s'.services w') (ha : s'.appenders = s.appenders)
    (hws : ∀ t ∈ s'.workers, t.Keeps c w'.facts) (hos : ∀ q ∈ s'.orphans, c.Legit w'.facts q) :
    Sound R s' w' where
  tracks := ht
  inv := h.inv.step hw
  applied k := by
    rw [hw.applied_eq k, System.stored, ha]
    exact h.applied k
  appenders := ha ▸ h.appenders
  workers := hws
  orphans := hos

/-- A step of an append: the stores take it as an append to the cutover, or as nothing. -/
theorem appender {s s' : S.State} {as as' : List Appender} {ws : List (Task JobResult)}
    {os : List Request} {a a' : Appender} {w w' : World κ ρ String} {l : Option (κ × ρ)}
    (h : Sound R ⟨s, as ++ a :: as', ws, os⟩ w) (hw : Cutover.Step w l w') (ht : R.Tracks s' w')
    (hr : a'.Routed c)
    (hl : ∀ k, (a'.stored c k).toList =
      (l.toList.filterMap fun x => if x.1 = k then some x.2 else none) ++ (a.stored c k).toList) :
    Sound R ⟨s', as ++ a' :: as', ws, os⟩ w' where
  tracks := ht
  inv := h.inv.step hw
  applied k := by
    have split : ∀ (s : S.State) (a : Appender), System.stored c ⟨s, as ++ a :: as', ws, os⟩ k =
        as.filterMap (Appender.stored c k) ++ ((a.stored c k).toList ++
          as'.filterMap (Appender.stored c k)) := by
      intro s a
      rw [System.stored, List.filterMap_append, List.filterMap_cons]
      cases a.stored c k <;> rfl
    have hold := h.applied k
    rw [split] at hold
    rw [hw.applied_eq k, split, hl, List.append_assoc]
    exact (hold.append_left _).trans (List.perm_append_comm_assoc ..)
  appenders := forall_mem_replace h.appenders hr
  workers t hx := (h.workers t hx).mono hw.facts_le
  orphans q hx := (h.orphans q hx).mono hw.facts_le

/-- A step of a worker next to the others, with what it leaves the worker and what it teaches. -/
theorem takes {α : Type} {s s' : S.State} {as : List Appender} {ws : List (Task JobResult)}
    {os os' : List Request} {t t' : Task α} {l : Task.Label} {w : World κ ρ String}
    (h : Sound R ⟨s, as, ws, os⟩ w) (hk : t.Keeps c w.facts) (hs : t.Step l t')
    (ht : System.Takes S l s os s' os') :
    ∃ w', Cutover.Step w none w' ∧ Sound R ⟨s', as, ws, os'⟩ w' ∧ t'.Keeps c w'.facts ∧
      l.Learned c w'.facts := by
  obtain ⟨hlegit, hnext⟩ := hk.step hs
  -- a step that leaves the stores alone, and at most adds an operation no one waits for
  have quiet : ∀ {os' : List Request}, (∀ q ∈ os', c.Legit w.facts q) → l.Learned c w.facts →
      ∃ w', Cutover.Step w none w' ∧ Sound R ⟨s, as, ws, os'⟩ w' ∧ t'.Keeps c w'.facts ∧
        l.Learned c w'.facts :=
    fun hos hl => ⟨w, .skip, h.serve .skip h.tracks rfl h.workers hos, hnext _ (.refl _) hl, hl⟩
  cases ht with
  | serve hq =>
      obtain ⟨w', hw, htr, hlearn⟩ := R.serve h.tracks h.inv hlegit hq
      exact ⟨w', hw, h.serve hw htr rfl (fun u hu => (h.workers u hu).mono hw.facts_le)
        fun q hx => (h.orphans q hx).mono hw.facts_le, hnext _ hw.facts_le hlearn, hlearn⟩
  | abandon =>
      refine quiet (fun q hx => ?_) trivial
      rcases List.mem_cons.mp hx with rfl | hx
      · exact hlegit
      · exact h.orphans q hx
  | silent => exact quiet h.orphans trivial
  | start => exact quiet h.orphans trivial
  | newRenewer => exact quiet h.orphans trivial
  | failed => exact quiet h.orphans trivial

/-- A step of a worker. -/
theorem worker {s s' : S.State} {as : List Appender} {ws ws' : List (Task JobResult)}
    {os os' : List Request} {t t' : Task JobResult} {l : Task.Label} {w : World κ ρ String}
    (h : Sound R ⟨s, as, ws ++ t :: ws', os⟩ w) (hs : t.Step l t')
    (ht : System.Takes S l s os s' os') :
    ∃ w', Cutover.Step w none w' ∧ Sound R ⟨s', as, ws ++ t' :: ws', os'⟩ w' := by
  have hk : t.Keeps c w.facts := h.workers t (List.mem_append_right _ (List.mem_cons_self ..))
  have hrest : Sound R ⟨s, as, ws ++ ws', os⟩ w :=
    ⟨h.tracks, h.inv, h.applied, h.appenders, forall_mem_remove h.workers, h.orphans⟩
  obtain ⟨w', hw, h', hk', -⟩ := hrest.takes hk hs ht
  refine ⟨w', hw, h'.tracks, h'.inv, h'.applied, h'.appenders, fun u hu => ?_, h'.orphans⟩
  rcases mem_replace hu with rfl | hu
  · exact hk'
  · exact h'.workers u hu

/-- **Every step of the system is a step of the cutover.** -/
theorem step {Opens : BucketId → Record → Prop} (hO : ∀ b r, Opens b r → c.Admits b r)
    {s s' : System S.State} {w : World κ ρ String} (h : Sound R s w)
    (hs : System.StepOf S Opens c.Good s s') : ∃ l w', Cutover.Step w l w' ∧ Sound R s' w' := by
  cases hs with
  | @openAppend s as ws os bucket record hopens =>
      refine ⟨none, w, .skip, h.tracks, h.inv, h.applied, fun a ha => ?_, h.workers, h.orphans⟩
      rcases List.mem_cons.mp ha with rfl | ha
      · exact ⟨hO _ _ hopens, fun hk => nomatch hk⟩
      · exact h.appenders a ha
  | @send s as as' ws os b r v =>
      have hr := h.appenders ⟨b, r, .unsent, v⟩ (List.mem_append_right _ (List.mem_cons_self ..))
      exact ⟨none, w, .skip, h.appender .skip h.tracks
        ⟨hr.admits, fun hk => nomatch hr.effect hk⟩ fun _ => rfl⟩
  | @serveAppend s s' as as' ws os b r v a hq =>
      have hr := h.appenders ⟨b, r, .pending, v⟩ (List.mem_append_right _ (List.mem_cons_self ..))
      obtain ⟨w', hw, ht⟩ := R.append h.tracks h.inv hr.admits.good hr.admits.partitionKey hq
      refine ⟨_, w', hw, h.appender hw ht
        ⟨hr.admits, fun hk => nomatch hr.effect hk⟩ fun k => ?_⟩
      match a with
      | .ok () =>
          by_cases e : c.ident b = k <;> simp [Appender.stored, Coding.appended, e]
      | .error _ => rfl
  | @deliver s as as' ws os b r a =>
      have hr := h.appenders ⟨b, r, .answered a, none⟩
        (List.mem_append_right _ (List.mem_cons_self ..))
      refine ⟨none, w, .skip, h.appender .skip h.tracks ⟨hr.admits, ?_⟩ fun _ => rfl⟩
      intro hk
      exact congrArg Sending.answered (Option.some.inj hk)
  | @lose s as as' ws os b r x e hx =>
      have hr := h.appenders ⟨b, r, x, none⟩ (List.mem_append_right _ (List.mem_cons_self ..))
      exact ⟨none, w, .skip, h.appender .skip h.tracks
        ⟨hr.admits, fun hk => nomatch hk⟩ fun _ => rfl⟩
  | @spawn s as ws os job hj =>
      refine ⟨none, w, .skip, h.tracks, h.inv, h.applied, h.appenders, fun t ht => ?_, h.orphans⟩
      rcases List.mem_cons.mp ht with rfl | ht
      · exact job.keeps c w.facts hj
      · exact h.workers t ht
  | worker hs ht =>
      obtain ⟨w', hw, hS⟩ := h.worker hs ht
      exact ⟨none, w', hw, hS⟩
  | @orphan s s' as ws os os' q r hq =>
      have hlegit := h.orphans q (List.mem_append_right _ (List.mem_cons_self ..))
      obtain ⟨w', hw, ht, -⟩ := R.serve h.tracks h.inv hlegit hq
      exact ⟨none, w', hw, h.serve hw ht rfl (fun t hx => (h.workers t hx).mono hw.facts_le)
        fun q' hx => (forall_mem_remove h.orphans q' hx).mono hw.facts_le⟩

/-- A step of the system is an operation that is asked for, or leaves the stores alone. -/
theorem asked (hc : ∀ b r, c.Opens b r → b.contains r.eventTime)
    {Opens : BucketId → Record → Prop} {s s' : System S.State} {w : World κ ρ String}
    (h : Sound R s w) (hs : System.StepOf S Opens c.Good s s') : s'.services = s.services ∨
      ∃ (q : Request) (r : q.Reply), c.Asked w.facts q ∧ S.serve q s.services r s'.services := by
  cases hs with
  | openAppend | send | deliver | lose | spawn => exact .inl rfl
  | @serveAppend s s' as as' ws os b r v a hq =>
      have hr := h.appenders ⟨b, r, .pending, v⟩ (List.mem_append_right _ (List.mem_cons_self ..))
      exact .inr ⟨.store (.append b r), a,
        ⟨hr.admits.good, hr.admits.partitionKey, hc _ _ hr.admits.opens⟩, hq⟩
  | @worker s s' as ws ws' os os' t t' l hs ht =>
      have hkeeps := h.workers t (List.mem_append_right _ (List.mem_cons_self ..))
      have hlegit := (hkeeps.step hs).1
      cases ht with
      | serve hq => exact .inr ⟨_, _, Coding.Legit.asked hlegit, hq⟩
      | abandon | silent | start | newRenewer | failed => exact .inl rfl
  | @orphan s s' as ws os os' q r hq =>
      have hlegit := h.orphans q (List.mem_append_right _ (List.mem_cons_self ..))
      exact .inr ⟨q, r, hlegit.asked, hq⟩

/-- The stores, with no one using them yet, are sound. -/
theorem init {s : S.State} {w : World κ ρ String} (ht : R.Tracks s w) (hi : Cutover.Inv w)
    (ha : ∀ k, w.applied k = []) : Sound R (System.init s) w :=
  ⟨ht, hi, fun k => by rw [ha k]; rfl, fun _ => (absurd · List.not_mem_nil),
    fun _ => (absurd · List.not_mem_nil), fun _ => (absurd · List.not_mem_nil)⟩

/-- **Every state a run reaches is sound.** -/
theorem reaches {Opens : BucketId → Record → Prop} (hO : ∀ b r, Opens b r → c.Admits b r)
    {s s' : System S.State} {w : World κ ρ String} (h : Sound R s w)
    (hr : System.ReachesOf S Opens c.Good s s') : ∃ w', Sound R s' w' := by
  induction hr with
  | refl => exact ⟨w, h⟩
  | tail _ hs ih =>
      obtain ⟨w₁, h₁⟩ := ih
      obtain ⟨_, w', _, h'⟩ := h₁.step hO hs
      exact ⟨w', h'⟩

/-- **No append is lost or repeated**: the visible rows of a bucket are, up to their order, what
the appends that took effect stored in it. -/
theorem visible_perm {s : System S.State} {w : World κ ρ String} (h : Sound R s w) (k : κ) :
    (w.visible k).Perm (s.stored c k) :=
  (h.inv.visible_perm k).trans (h.applied k)

end Sound

end Pulpitum
