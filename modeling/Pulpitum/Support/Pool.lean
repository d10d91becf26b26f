import Mathlib
import Pulpitum.Support.Prog
import Pulpitum.Support.Runs

/-!
# Support — Pool

Any number of parties that run programs over one shared state, a question at a time and in any
order, while the state may also drift by itself.

A `Guarantee` says that an answered question leaves the state in its invariant, keeps what every
party knows, and teaches the one who asked; the rule `Pool.Guarantee.keeps` then gives each party
in a reachable pool the discipline of its program.  `Prog.Within n p` says that `p` asks at most
`n` questions; by `Pool.length_log_le`, this bounds what a party has asked.
-/

namespace Prog

variable {Q : Type} {A : Q → Type} {α β : Type}

/-- The program asks at most `n` questions. -/
def Within : ℕ → Prog A α → Prop
  | _, .ret _ => True
  | 0, .ask _ _ => False
  | n + 1, .ask _ k => ∀ r, (k r).Within n

namespace Within

theorem ret (n : ℕ) (a : α) : (Prog.ret a : Prog A α).Within n := by
  cases n with
  | zero => trivial
  | succ n => trivial

theorem mono {p : Prog A α} : ∀ {m n : ℕ}, m ≤ n → p.Within m → p.Within n := by
  induction p with
  | ret a => exact fun _ _ => .ret _ a
  | ask q k ih =>
      intro m n hmn h
      cases m with
      | zero => exact h.elim
      | succ m =>
          cases n with
          | zero => exact absurd hmn (Nat.not_succ_le_zero m)
          | succ n => exact fun r => ih r (Nat.le_of_succ_le_succ hmn) (h r)

theorem bind {p : Prog A α} {f : α → Prog A β} {n : ℕ} (hf : ∀ a, (f a).Within n) :
    ∀ {m : ℕ}, p.Within m → (p >>= f).Within (m + n) := by
  induction p with
  | ret a => exact fun _ => (hf a).mono (Nat.le_add_left _ _)
  | ask q k ih =>
      intro m h
      cases m with
      | zero => exact h.elim
      | succ m =>
          rw [Nat.succ_add]
          exact fun r => ih r (h r)

end Within

/-- Asked alone from the state `s`, the program may return `b` and leave `s'`. -/
def Reaches {σ : Type} (serve : (q : Q) → σ → A q → σ → Prop) : Prog A α → σ → α → σ → Prop
  | .ret a, s, b, s' => b = a ∧ s' = s
  | .ask q k, s, b, s' => ∃ r s₁, serve q s r s₁ ∧ (k r).Reaches serve s₁ b s'

theorem Reaches.bind {σ : Type} {serve : (q : Q) → σ → A q → σ → Prop} {p : Prog A α}
    {f : α → Prog A β} {b : β} {s₁ s' : σ} {a : α} :
    ∀ {s : σ}, p.Reaches serve s a s₁ → (f a).Reaches serve s₁ b s' →
      (p >>= f).Reaches serve s b s' := by
  induction p with
  | ret a =>
      rintro s ⟨rfl, rfl⟩ hf
      exact hf
  | ask q k ih =>
      rintro s ⟨r, s₂, hs, hk⟩ hf
      exact ⟨r, s₂, hs, ih r hk hf⟩

/-- A program that is run alone. -/
theorem reaches_runOn {σ : Type} {serve : (q : Q) → σ → A q → σ → Prop}
    {exec : (q : Q) → σ → A q × σ} (h : ∀ q s, serve q s (exec q s).1 (exec q s).2)
    (p : Prog A α) (s : σ) : p.Reaches serve s (p.runOn exec s).1 (p.runOn exec s).2 := by
  induction p generalizing s with
  | ret a => exact ⟨rfl, rfl⟩
  | ask q k ih => exact ⟨_, _, h q s, ih _ _⟩

end Prog

/-- Someone who runs a program: its name, what it has asked with the answers, and what is left. -/
structure Party {Q : Type} (A : Q → Type) (α ι : Type) where
  name : ι
  log : List ((q : Q) × A q)
  rest : Prog A α

/-- A shared state, and those who run programs over it. -/
structure Pool (σ : Type) {Q : Type} (A : Q → Type) (α ι : Type) where
  shared : σ
  parties : List (Party A α ι)

namespace Pool

variable {σ Q : Type} {A : Q → Type} {α ι : Type} {serve : (q : Q) → σ → A q → σ → Prop}
  {drift : σ → σ → Prop} {prog : ι → Prog A α} {May : ι → Prop} {s₀ : σ} {c c' : Pool σ A α ι}

/-- One step of one party, or of the state by itself.  Only names in `May` enter. -/
inductive Step (serve : (q : Q) → σ → A q → σ → Prop) (drift : σ → σ → Prop)
    (prog : ι → Prog A α) (May : ι → Prop) : Pool σ A α ι → Pool σ A α ι → Prop where
  | enter {s ps} (i : ι) (h : May i) :
      Step serve drift prog May ⟨s, ps⟩ ⟨s, ⟨i, [], prog i⟩ :: ps⟩
  | act {s s' i log l l'} {q : Q} {k : A q → Prog A α} {r : A q} (h : serve q s r s') :
      Step serve drift prog May ⟨s, l ++ ⟨i, log, .ask q k⟩ :: l'⟩
        ⟨s', l ++ ⟨i, log ++ [⟨q, r⟩], k r⟩ :: l'⟩
  | drift {s s' ps} (h : drift s s') : Step serve drift prog May ⟨s, ps⟩ ⟨s', ps⟩

/-- The pools that a run reaches. -/
abbrev Reaches (serve : (q : Q) → σ → A q → σ → Prop) (drift : σ → σ → Prop)
    (prog : ι → Prog A α) (May : ι → Prop) : Pool σ A α ι → Pool σ A α ι → Prop :=
  Relation.ReflTransGen (Step serve drift prog May)

/-- A party that enters and is answered alone. -/
theorem reaches_party {i : ι} (hi : May i) {s s' : σ} {a : α} {ps : List (Party A α ι)}
    (h : (prog i).Reaches serve s a s') :
    ∃ log, Reaches serve drift prog May ⟨s, ps⟩ ⟨s', ⟨i, log, .ret a⟩ :: ps⟩ := by
  have hacts : ∀ {p : Prog A α} {s : σ} (log : List ((q : Q) × A q)), p.Reaches serve s a s' →
      ∃ log', Reaches serve drift prog May ⟨s, ⟨i, log, p⟩ :: ps⟩
        ⟨s', ⟨i, log', .ret a⟩ :: ps⟩ := by
    intro p
    induction p with
    | ret b =>
        rintro s log ⟨rfl, rfl⟩
        exact ⟨log, .refl⟩
    | ask q k ih =>
        rintro s log ⟨r, s₁, hs, hk⟩
        obtain ⟨log', hrun⟩ := ih r (log ++ [⟨q, r⟩]) hk
        exact ⟨log', .head (.act (l := []) hs) hrun⟩
  obtain ⟨log, hrun⟩ := hacts [] h
  exact ⟨log, .head (.enter i hi) hrun⟩

/-- What holds of a new party, and stays when it is answered, holds of every party. -/
theorem forall_party {P : Party A α ι → Prop} (hnew : ∀ i, May i → P ⟨i, [], prog i⟩)
    (hact : ∀ i log (q : Q) (k : A q → Prog A α) r,
      P ⟨i, log, .ask q k⟩ → P ⟨i, log ++ [⟨q, r⟩], k r⟩)
    (h : Reaches serve drift prog May ⟨s₀, []⟩ c) : ∀ x ∈ c.parties, P x := by
  induction h with
  | refl => exact List.forall_mem_nil _
  | tail _ hstep ih =>
      cases hstep with
      | enter i hi => exact List.forall_mem_cons.mpr ⟨hnew i hi, ih⟩
      | act _ =>
          refine forall_mem_replace ih (hact _ _ _ _ _ (ih _ ?_))
          exact List.mem_append_right _ (List.mem_cons_self ..)
      | drift _ => exact ih

/-- A party has one of the names that enter. -/
theorem may_name (h : Reaches serve drift prog May ⟨s₀, []⟩ c) : ∀ x ∈ c.parties, May x.name :=
  forall_party (fun _ hi => hi) (fun _ _ _ _ _ hx => hx) h

/-- A party has asked no more than its program may. -/
theorem length_log_le {n : ℕ} (hprog : ∀ i, May i → (prog i).Within n)
    (h : Reaches serve drift prog May ⟨s₀, []⟩ c) : ∀ x ∈ c.parties, x.log.length ≤ n := by
  have hbound : ∀ x ∈ c.parties, ∃ m, x.rest.Within m ∧ x.log.length + m ≤ n := by
    refine forall_party (fun i hi => ⟨n, hprog i hi, by simp⟩) ?_ h
    rintro i log q k r ⟨m, hm, hle⟩
    cases m with
    | zero => exact hm.elim
    | succ m =>
        refine ⟨m, hm r, ?_⟩
        simp only [List.length_append, List.length_singleton] at hle ⊢
        omega
  intro x hx
  obtain ⟨m, -, hle⟩ := hbound x hx
  omega

section Guarantee

variable {D : Discipline A} {fact : σ → List ((q : Q) × A q) → D.Fact} {I : σ → Prop}
  {post : ι → α → D.Fact → Prop}

/-- Answers and drift keep the invariant `I` of the state and what the parties know, which
depends on the state and on their own logs; and an answer teaches the one who asked. -/
structure Guarantee (serve : (q : Q) → σ → A q → σ → Prop) (drift : σ → σ → Prop)
    (D : Discipline A) (fact : σ → List ((q : Q) × A q) → D.Fact) (I : σ → Prop) : Prop where
  invariant : ∀ {q s r s' log}, serve q s r s' → I s → D.legit (fact s log) q → I s'
  others : ∀ {q s r s' log}, serve q s r s' → D.le (fact s log) (fact s' log)
  own : ∀ {q s r s' log}, serve q s r s' → D.le (fact s log) (fact s' (log ++ [⟨q, r⟩]))
  learns : ∀ {q s r s' log}, serve q s r s' → I s → D.legit (fact s log) q →
    D.learn q r (fact s' (log ++ [⟨q, r⟩]))
  drift_invariant : ∀ {s s'}, drift s s' → I s → I s'
  drift_le : ∀ {s s' log}, drift s s' → D.le (fact s log) (fact s' log)

/-- **Every party keeps its discipline**, whatever the others do, and the state its invariant. -/
theorem Guarantee.keeps (hg : Guarantee serve drift D fact I)
    (hprog : ∀ i, May i → ∀ F, (prog i).Keeps D F (post i))
    (hpost : ∀ i a {F G}, D.le F G → post i a F → post i a G) (hs : I s₀)
    (h : Reaches serve drift prog May ⟨s₀, []⟩ c) :
    I c.shared ∧ ∀ x ∈ c.parties, x.rest.Keeps D (fact c.shared x.log) (post x.name) := by
  induction h with
  | refl => exact ⟨hs, List.forall_mem_nil _⟩
  | tail _ hstep ih =>
      obtain ⟨hI, hkeeps⟩ := ih
      cases hstep with
      | enter i hi => exact ⟨hI, List.forall_mem_cons.mpr ⟨hprog i hi _, hkeeps⟩⟩
      | act hserve =>
          obtain ⟨hlegit, hnext⟩ := hkeeps _ (List.mem_append_right _ (List.mem_cons_self ..))
          refine ⟨hg.invariant hserve hI hlegit, ?_⟩
          refine forall_mem_replace
            (fun x hx => (hkeeps x hx).mono (fun a => hpost x.name a) (hg.others hserve)) ?_
          exact hnext _ (hg.own hserve) _ (hg.learns hserve hI hlegit)
      | drift hdrift =>
          refine ⟨hg.drift_invariant hdrift hI, fun x hx => ?_⟩
          exact (hkeeps x hx).mono (fun a => hpost x.name a) (hg.drift_le hdrift)

end Guarantee

end Pool
