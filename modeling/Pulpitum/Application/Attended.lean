import Mathlib
import Pulpitum.Application.Exchanges
import Pulpitum.Application.NoLoss

/-!
# Application — One worker among the others

A worker that is attended to, next to a system of appenders and other workers over the same
stores.  A run of the two is labelled with the state before each step, and with what the worker
did in it.

* `Attended.own`: the worker's own steps are a run of its task.
* `Attends.reaches`: every run is one of the cutover, and the worker keeps its discipline.
* `Attends.mark`: what such a run gives at an operation of the worker that took effect.
-/

namespace Pulpitum

open Cutover (World Leads)

variable {α κ ρ : Type} [DecidableEq κ] {S : Services} {c : Coding κ ρ} {R : Refinement S c}

/-- The stores, of which only the operations in `P` take effect. -/
def Services.only (S : Services) (P : Request → Prop) : Services where
  State := S.State
  serve q s r s' := P q ∧ S.serve q s r s'

/-- A system of others, and the worker. -/
abbrev Attended (S : Services) (α : Type) := System S.State × Task α

namespace Attended

/-- One step of the others, or of the worker. -/
inductive Step (S : Services) (Good : BucketId → Prop) :
    Attended S α → Option Task.Label → Attended S α → Prop where
  | others {s s' : System S.State} {t : Task α} (h : System.Step S Good s s') :
      Step S Good (s, t) none (s', t)
  | own {s s' : S.State} {as : List Appender} {ws : List (Task JobResult)}
      {os os' : List Request} {t t' : Task α} {l : Task.Label} (h : t.Step l t')
      (ht : System.Takes S l s os s' os') :
      Step S Good (⟨s, as, ws, os⟩, t) (some l) (⟨s', as, ws, os'⟩, t')

/-- A step, labelled with the state before it as well. -/
def Move (S : Services) (Good : BucketId → Prop) (x : Attended S α)
    (a : Attended S α × Option Task.Label) (y : Attended S α) : Prop :=
  a.1 = x ∧ Step S Good x a.2 y

theorem Move.own {Good : BucketId → Prop} {s s' : S.State} {as : List Appender}
    {ws : List (Task JobResult)} {os os' : List Request} {t t' : Task α} {l : Task.Label}
    (h : t.Step l t') (ht : System.Takes S l s os s' os') :
    Move S Good (⟨s, as, ws, os⟩, t) ((⟨s, as, ws, os⟩, t), some l) (⟨s', as, ws, os'⟩, t') :=
  ⟨rfl, .own h ht⟩

/-- What the worker did in a run. -/
def deeds (ls : List (Attended S α × Option Task.Label)) : List Task.Label := ls.filterMap Prod.snd

variable {Good : BucketId → Prop} {x y : Attended S α}
  {ls : List (Attended S α × Option Task.Label)}

/-- The worker's own steps. -/
theorem own (h : Run (Move S Good) x ls y) : Run Task.Step x.2 (deeds ls) y.2 := by
  induction h with
  | refl => exact .refl _
  | @more x x₁ y a ls hs _ ih =>
      obtain ⟨m, l⟩ := a
      obtain ⟨-, hs⟩ := hs
      cases hs with
      | others => exact ih
      | own h => exact .more h ih

/-- The run was in some state when the worker did the first of its deeds. -/
theorem exists_mark {a : Task.Label} {as : List Task.Label} (h : (a :: as).Sublist (deeds ls)) :
    ∃ l₁ m l₂, ls = l₁ ++ (m, some a) :: l₂ ∧ as.Sublist (deeds l₂) := by
  induction ls with
  | nil => cases h
  | cons x ls ih =>
      obtain ⟨m, l⟩ := x
      have later : (a :: as).Sublist (deeds ls) → ∃ l₁ m' l₂,
          (m, l) :: ls = l₁ ++ (m', some a) :: l₂ ∧ as.Sublist (deeds l₂) := by
        intro h
        obtain ⟨l₁, m', l₂, rfl, has⟩ := ih h
        exact ⟨(m, l) :: l₁, m', l₂, rfl, has⟩
      cases l with
      | none => exact later h
      | some l =>
          cases (h : (a :: as).Sublist (l :: deeds ls)) with
          | cons _ h => exact later h
          | cons_cons _ h => exact ⟨[], m, ls, rfl, h⟩

end Attended

/-- The others are sound, and the worker keeps its discipline. -/
def Attends (R : Refinement S c) (x : Attended S α) (w : World κ ρ String) : Prop :=
  Sound R x.1 w ∧ x.2.Keeps c w.facts

namespace Attends

variable {x y : Attended S α} {w : World κ ρ String}
  {ls : List (Attended S α × Option Task.Label)}

/-- **One step** is a step of the cutover, and teaches the worker what it is answered. -/
theorem step (hO : ∀ b r, DurableTable.Routes b r → c.Admits b r) {l : Option Task.Label}
    (h : Attends R x w) (hs : Attended.Step S c.Good x l y) :
    ∃ w', Leads w w' ∧ Attends R y w' ∧ ∀ l' ∈ l, l'.Learned c w'.facts := by
  cases hs with
  | others hs =>
      obtain ⟨m, w', hw, h'⟩ := h.1.step hO hs
      exact ⟨w', .single ⟨m, hw⟩, ⟨h', h.2.mono hw.facts_le⟩, fun _ hl => by cases hl⟩
  | own hs ht =>
      obtain ⟨w', hw, h', hk, hl⟩ := h.1.takes h.2 hs ht
      exact ⟨w', .single ⟨none, hw⟩, ⟨h', hk⟩, fun l' hl' => by cases hl'; exact hl⟩

/-- **Every run is one of the cutover.** -/
theorem reaches (hO : ∀ b r, DurableTable.Routes b r → c.Admits b r) (h : Attends R x w)
    (hr : Run (Attended.Move S c.Good) x ls y) : ∃ w', Leads w w' ∧ Attends R y w' := by
  induction hr generalizing w with
  | refl => exact ⟨w, .refl, h⟩
  | more hs _ ih =>
      obtain ⟨w₁, hw₁, h₁, -⟩ := step hO h hs.2
      obtain ⟨w', hw', h'⟩ := ih h₁
      exact ⟨w', hw₁.trans hw', h'⟩

/-- The first of the worker's deeds: the run until then, the step, and the rest of the run. -/
theorem mark (hO : ∀ b r, DurableTable.Routes b r → c.Admits b r) (h : Attends R x w)
    (hr : Run (Attended.Move S c.Good) x ls y) {a : Task.Label} {as : List Task.Label}
    (hm : (a :: as).Sublist (Attended.deeds ls)) :
    ∃ l₁ m l₂ m' w₁ w₂, ls = l₁ ++ (m, some a) :: l₂ ∧ as.Sublist (Attended.deeds l₂) ∧
      Attended.Step S c.Good m (some a) m' ∧ Run (Attended.Move S c.Good) m' l₂ y ∧
      Leads w w₁ ∧ Attends R m w₁ ∧ Leads w₁ w₂ ∧ Attends R m' w₂ ∧ a.Learned c w₂.facts := by
  obtain ⟨l₁, m, l₂, rfl, has⟩ := Attended.exists_mark hm
  obtain ⟨m₁, h₁, h₂⟩ := hr.split
  cases h₂ with
  | more hs h₂ =>
      obtain ⟨rfl, hs⟩ := hs
      obtain ⟨w₁, hw₁, hm₁⟩ := reaches hO h h₁
      obtain ⟨w₂, hw₂, hm₂, hl⟩ := step hO hm₁ hs
      exact ⟨l₁, _, l₂, _, w₁, w₂, rfl, has, hs, h₂, hw₁, hm₁, hw₂, hm₂, hl a rfl⟩

end Attends

end Pulpitum
