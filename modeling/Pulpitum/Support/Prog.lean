import Mathlib

/-!
# Support — Prog

Programs that put questions to their environment and continue with the answers, and a way to say
what such a program may ask.

`Prog A α` is a program over the questions `Q`, where the question `q` is answered in `A q`, and
which returns an `α`; `Prog.runOn` runs it alone over a state.  A `Discipline` says which questions
are legitimate, given what is known, and what an answer teaches.  `Prog.Keeps D F p post` says that
the program `p`, started when `F` is known, asks only legitimate questions whatever the answers are,
and that its result satisfies `post` of what is known at the end.  The rules are `Keeps.ret`,
`Keeps.ask`, `Keeps.bind`, `Keeps.imp` and `Keeps.mono`.

A `Protocol` says which questions are allowed in a mode, and how an answer changes the mode.
`Prog.Follows P m p post` says that `p`, started in the mode `m`, follows it; the rules are
`Follows.bind` and `Follows.imp`.

`Prog.Yields serve p s post` says that `p`, run over an environment with the state `s` that
answers as `serve` allows, is never left without an answer and ends in `post`, whichever answers
it gets; the rules are `Yields.ask`, `Yields.bind` and `Yields.imp`.

`Prog.Trace p h a` says that `p`, asking and being answered as in `h`, returns `a`.  `Prog.Ends p
post` says that this is so only for `h` and `a` in `post`; the rules are `Ends.bind`, `Ends.imp`
and `Ends.trace`.  `Prog.After p h p'` says that `p`, having asked and been answered as in `h`,
goes on as `p'`; `Ends.after` says what is left to it, and `Ends.can_end` that it can end.
-/

/-- A program over the questions `Q`, answered in `A`, returning an `α`. -/
inductive Prog {Q : Type} (A : Q → Type) (α : Type) : Type where
  | ret (a : α) : Prog A α
  | ask (q : Q) (k : A q → Prog A α) : Prog A α

namespace Prog

variable {Q : Type} {A : Q → Type} {α β : Type}

/-- Run `p`, then `f` on its result. -/
def bind : Prog A α → (α → Prog A β) → Prog A β
  | .ret a, f => f a
  | .ask q k, f => .ask q fun r => (k r).bind f

instance : Monad (Prog A) where
  pure := .ret
  bind := .bind

/-- The program that asks `q` and returns the answer. -/
def perform (q : Q) : Prog A (A q) := .ask q .ret

/-- Run alone: every question is answered in the state that the questions before it left. -/
def runOn {σ : Type} (exec : (q : Q) → σ → A q × σ) : Prog A α → σ → α × σ
  | .ret a, s => (a, s)
  | .ask q k, s => (k (exec q s).1).runOn exec (exec q s).2

/-- What the program returns when its questions are answered by `answer`. -/
def eval (answer : (q : Q) → A q) : Prog A α → α
  | .ret a => a
  | .ask q k => (k (answer q)).eval answer

@[simp] theorem pure_eq (a : α) : (pure a : Prog A α) = .ret a := rfl

@[simp] theorem ret_bind (a : α) (f : α → Prog A β) : (Prog.ret a >>= f) = f a := rfl

@[simp]
theorem ask_bind (q : Q) (k : A q → Prog A α) (f : α → Prog A β) :
    (Prog.ask q k >>= f) = .ask q fun r => k r >>= f := rfl

@[simp]
theorem perform_bind (q : Q) (f : A q → Prog A β) : (perform q >>= f) = .ask q f := rfl

end Prog

/-- Which questions may be asked, given what is known, and what an answer teaches. -/
structure Discipline {Q : Type} (A : Q → Type) where
  /-- What can be known. -/
  Fact : Type
  /-- Knowing at least as much. -/
  le : Fact → Fact → Prop
  le_refl : ∀ F, le F F
  le_trans : ∀ {F G H}, le F G → le G H → le F H
  legit : Fact → Q → Prop
  learn : (q : Q) → A q → Fact → Prop
  legit_mono : ∀ {F G q}, le F G → legit F q → legit G q

namespace Prog

variable {Q : Type} {A : Q → Type} {α β : Type} {D : Discipline A}

/-- Started when `F` is known, `p` asks only legitimate questions, and returns in `post`. -/
def Keeps (D : Discipline A) : D.Fact → Prog A α → (α → D.Fact → Prop) → Prop
  | F, .ret a, post => post a F
  | F, .ask q k, post =>
      D.legit F q ∧ ∀ G, D.le F G → ∀ r, D.learn q r G → (k r).Keeps D G post

namespace Keeps

theorem ret {F : D.Fact} {a : α} {post : α → D.Fact → Prop} (h : post a F) :
    (Prog.ret a).Keeps D F post := h

theorem ask {F : D.Fact} {q : Q} {k : A q → Prog A α} {post : α → D.Fact → Prop}
    (hq : D.legit F q) (hk : ∀ G, D.le F G → ∀ r, D.learn q r G → (k r).Keeps D G post) :
    (Prog.ask q k).Keeps D F post := ⟨hq, hk⟩

theorem imp {p : Prog A α} {post post' : α → D.Fact → Prop} :
    ∀ {F : D.Fact}, p.Keeps D F post → (∀ a G, D.le F G → post a G → post' a G) →
      p.Keeps D F post' := by
  induction p with
  | ret a => exact fun h himp => himp a _ (D.le_refl _) h
  | ask q k ih =>
      rintro F ⟨hq, hk⟩ himp
      exact ⟨hq, fun G hG r hr =>
        ih r (hk G hG r hr) fun a H hH => himp a H (D.le_trans hG hH)⟩

theorem bind {p : Prog A α} {f : α → Prog A β} {post : β → D.Fact → Prop} :
    ∀ {F : D.Fact}, p.Keeps D F (fun a G => (f a).Keeps D G post) →
      (p >>= f).Keeps D F post := by
  induction p with
  | ret a => exact id
  | ask q k ih => exact fun ⟨hq, hk⟩ => ⟨hq, fun G hG r hr => ih r (hk G hG r hr)⟩

/-- Two programs in sequence, when the second needs nothing of what the first returns. -/
theorem seq {p : Prog A α} {f : α → Prog A β} {post : β → D.Fact → Prop} {F : D.Fact}
    (hp : p.Keeps D F fun _ _ => True) (hf : ∀ a G, D.le F G → (f a).Keeps D G post) :
    (p >>= f).Keeps D F post :=
  bind (hp.imp fun a G hG _ => hf a G hG)

/-- A program keeps its discipline when more is known. -/
theorem mono {p : Prog A α} {post : α → D.Fact → Prop}
    (hpost : ∀ a {F G}, D.le F G → post a F → post a G) :
    ∀ {F G : D.Fact}, D.le F G → p.Keeps D F post → p.Keeps D G post := by
  cases p with
  | ret a => exact fun hFG h => hpost a hFG h
  | ask q k =>
      exact fun hFG ⟨hq, hk⟩ =>
        ⟨D.legit_mono hFG hq, fun H hH r hr => hk H (D.le_trans hFG hH) r hr⟩

end Keeps

end Prog

/-! ### Protocols -/

/-- A protocol: in which mode which questions may be asked, and the mode after an answer. -/
structure Protocol {Q : Type} (A : Q → Type) where
  Mode : Type
  may : Mode → Q → Prop
  after : Mode → (q : Q) → A q → Mode

namespace Prog

variable {Q : Type} {A : Q → Type} {α β : Type} {P : Protocol A}

/-- Started in the mode `m`, the program asks only what its mode allows, and ends in `post`. -/
def Follows (P : Protocol A) : P.Mode → Prog A α → (α → P.Mode → Prop) → Prop
  | m, .ret a, post => post a m
  | m, .ask q k, post => P.may m q ∧ ∀ r, (k r).Follows P (P.after m q r) post

namespace Follows

theorem imp {p : Prog A α} {post post' : α → P.Mode → Prop} :
    ∀ {m : P.Mode}, p.Follows P m post → (∀ a m, post a m → post' a m) → p.Follows P m post' := by
  induction p with
  | ret a => exact fun h himp => himp a _ h
  | ask q k ih => exact fun ⟨hq, hk⟩ himp => ⟨hq, fun r => ih r (hk r) himp⟩

theorem bind {p : Prog A α} {f : α → Prog A β} {post : β → P.Mode → Prop} :
    ∀ {m : P.Mode}, p.Follows P m (fun a m' => (f a).Follows P m' post) →
      (p >>= f).Follows P m post := by
  induction p with
  | ret a => exact id
  | ask q k ih => exact fun ⟨hq, hk⟩ => ⟨hq, fun r => ih r (hk r)⟩

end Follows

end Prog

/-- Whatever it is answered, the program asks only questions in `P`. -/
def Prog.Asks {Q : Type} {A : Q → Type} {α : Type} (P : Q → Prop) : Prog A α → Prop
  | .ret _ => True
  | .ask q k => P q ∧ ∀ r, (k r).Asks P

theorem Prog.Asks.bind {Q : Type} {A : Q → Type} {α β : Type} {P : Q → Prop} {p : Prog A α}
    {f : α → Prog A β} (hp : p.Asks P) (hf : ∀ a, (f a).Asks P) : (p >>= f).Asks P := by
  induction p with
  | ret a => exact hf a
  | ask q k ih => exact ⟨hp.1, fun r => ih r (hp.2 r)⟩

/-! ### Environments with a state -/

namespace Prog

variable {Q : Type} {A : Q → Type} {α β σ : Type}

/-- Run from the state `s`, the program is always answered, and ends in `post` whatever the
answers are.  `serve q s r s'` says that `q`, asked in `s`, may be answered `r`, with `s'` the
state after it. -/
def Yields (serve : (q : Q) → σ → A q → σ → Prop) : Prog A α → σ → (α → σ → Prop) → Prop
  | .ret a, s, post => post a s
  | .ask q k, s, post =>
      (∃ r s', serve q s r s') ∧ ∀ r s', serve q s r s' → (k r).Yields serve s' post

namespace Yields

variable {serve : (q : Q) → σ → A q → σ → Prop}

theorem ask {q : Q} {k : A q → Prog A α} {s : σ} {post : α → σ → Prop}
    (he : ∃ r s', serve q s r s')
    (hk : ∀ r s', serve q s r s' → (k r).Yields serve s' post) :
    (Prog.ask q k).Yields serve s post := ⟨he, hk⟩

theorem imp {p : Prog A α} {post post' : α → σ → Prop} (himp : ∀ a s, post a s → post' a s) :
    ∀ {s : σ}, p.Yields serve s post → p.Yields serve s post' := by
  induction p with
  | ret a => exact fun h => himp a _ h
  | ask q k ih => exact fun ⟨he, hk⟩ => ⟨he, fun r s' hs => ih r (hk r s' hs)⟩

theorem bind {p : Prog A α} {f : α → Prog A β} {post : β → σ → Prop} :
    ∀ {s : σ}, p.Yields serve s (fun a s' => (f a).Yields serve s' post) →
      (p >>= f).Yields serve s post := by
  induction p with
  | ret a => exact id
  | ask q k ih => exact fun ⟨he, hk⟩ => ⟨he, fun r s' hs => ih r (hk r s' hs)⟩

end Yields

end Prog

/-! ### Histories -/

namespace Prog

variable {Q : Type} {A : Q → Type} {α β : Type}

/-- Asking the questions of the history, and given its answers, the program returns `b`. -/
def Trace : Prog A α → List ((q : Q) × A q) → α → Prop
  | .ret a, h, b => h = [] ∧ b = a
  | .ask q k, h, b => ∃ r h', h = ⟨q, r⟩ :: h' ∧ (k r).Trace h' b

/-- Whatever it is answered, the program ends in `post` of its questions with their answers, in
order, and of its result. -/
def Ends : Prog A α → (List ((q : Q) × A q) → α → Prop) → Prop
  | .ret a, post => post [] a
  | .ask q k, post => ∀ r, (k r).Ends fun l a => post (⟨q, r⟩ :: l) a

/-- Having asked and been answered as in the history, the program goes on as the second one. -/
inductive After (p : Prog A α) : List ((q : Q) × A q) → Prog A α → Prop where
  | refl : After p [] p
  | snoc {h : List ((q : Q) × A q)} {q : Q} {k : A q → Prog A α} (ha : After p h (.ask q k))
      (r : A q) : After p (h ++ [⟨q, r⟩]) (k r)

namespace Ends

theorem imp {p : Prog A α} : ∀ {post post' : List ((q : Q) × A q) → α → Prop}, p.Ends post →
    (∀ l a, post l a → post' l a) → p.Ends post' := by
  induction p with
  | ret a => exact fun h himp => himp [] a h
  | ask q k ih => exact fun h himp r => ih r (h r) fun l a => himp (⟨q, r⟩ :: l) a

theorem bind {p : Prog A α} {f : α → Prog A β} :
    ∀ {post : List ((q : Q) × A q) → β → Prop},
      p.Ends (fun l a => (f a).Ends fun l' b => post (l ++ l') b) → (p >>= f).Ends post := by
  induction p with
  | ret a => exact id
  | ask q k ih => exact fun h r => ih r (h r)

theorem trace {p : Prog A α} : ∀ {post : List ((q : Q) × A q) → α → Prop}
    {h : List ((q : Q) × A q)} {a : α}, p.Ends post → p.Trace h a → post h a := by
  induction p with
  | ret a =>
      rintro post _ _ h ⟨rfl, rfl⟩
      exact h
  | ask q k ih =>
      rintro post _ a h ⟨r, h', rfl, ht⟩
      have hpost := ih r (h r) ht
      exact hpost

theorem of_forall {p : Prog A α} : ∀ {post : List ((q : Q) × A q) → α → Prop},
    (∀ l a, post l a) → p.Ends post := by
  induction p with
  | ret a => exact fun h => h [] a
  | ask q k ih => exact fun h r => ih r fun l a => h (⟨q, r⟩ :: l) a

/-- A program that asks certain questions only has asked them when it ends. -/
theorem of_asks {P : Q → Prop} {p : Prog A α} (h : p.Asks P) :
    p.Ends fun l _ => ∀ x ∈ l, P x.1 := by
  induction p with
  | ret a => exact List.forall_mem_nil _
  | ask q k ih =>
      intro r
      exact (ih r (h.2 r)).imp fun l _ hl => List.forall_mem_cons.mpr ⟨h.1, hl⟩

/-- What is left of a program ends as the whole does. -/
theorem after {p p' : Prog A α} {post : List ((q : Q) × A q) → α → Prop}
    {h : List ((q : Q) × A q)} (hp : p.Ends post) (ha : p.After h p') :
    p'.Ends fun l a => post (h ++ l) a := by
  induction ha with
  | refl => exact hp
  | snoc _ r ih => exact (ih r).imp fun l a hl => by rwa [List.append_assoc]

/-- A program whose questions have answers can end. -/
theorem can_end [∀ q, Nonempty (A q)] {p : Prog A α} :
    ∀ {post : List ((q : Q) × A q) → α → Prop}, p.Ends post → ∃ l a, post l a := by
  induction p with
  | ret a => exact fun h => ⟨[], a, h⟩
  | ask q k ih =>
      intro post h
      obtain ⟨r⟩ := ‹∀ q, Nonempty (A q)› q
      obtain ⟨l, a, hl⟩ := ih r (h r)
      exact ⟨⟨q, r⟩ :: l, a, hl⟩

end Ends

end Prog
