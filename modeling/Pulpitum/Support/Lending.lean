import Mathlib

/-!
# Support — Lending

A lender with a fixed number of permits, a shelf of resources, and borrowers in any number.  A
borrower enters with a permit, takes a resource from the shelf or, when it found the shelf empty,
makes one, and puts it back or drops it before it gives its permit back.  Resources can be retired
at any time, wherever they are.

* `Move.inv`: what a move preserves.
* `Inv.length_le`: there are never more resources in service than permits.
* `Inv.exclusive`: no resource is held by two borrowers.
-/

/-- Where a borrower is. -/
inductive Borrower (ρ : Type*) where
  /-- Without a permit. -/
  | away
  /-- With a permit and nothing in hand: about to look at the shelf, or about to leave. -/
  | seeking
  /-- With a permit, having found the shelf empty. -/
  | building
  | holding (r : ρ)

namespace Borrower

variable {ρ : Type*}

/-- The resource in hand. -/
def held : Borrower ρ → Option ρ
  | holding r => some r
  | _ => none

/-- Looks at the shelf, or is about to leave. -/
def seeks : Borrower ρ → Bool
  | seeking => true
  | _ => false

/-- Has a permit. -/
def permitted : Borrower ρ → Bool
  | away => false
  | _ => true

end Borrower

/-- The permits left, the shelf, the borrowers, and the resources that are in service. -/
structure Lender (ρ : Type*) where
  free : ℕ
  shelf : List ρ
  borrowers : List (Borrower ρ)
  live : Set ρ

namespace Lender

open Borrower

variable {ρ : Type*}

/-- The resources on the shelf and in hand. -/
def inventory (shelf : List ρ) (borrowers : List (Borrower ρ)) : List ρ :=
  shelf ++ borrowers.filterMap held

/-- The resources the lender knows of. -/
def stock (s : Lender ρ) : List ρ := inventory s.shelf s.borrowers

/-- One move. -/
inductive Move : Lender ρ → Lender ρ → Prop where
  | hire {n s bs v} : Move ⟨n, s, bs, v⟩ ⟨n, s, away :: bs, v⟩
  | enter {n s l l' v} : Move ⟨n + 1, s, l ++ away :: l', v⟩ ⟨n, s, l ++ seeking :: l', v⟩
  | leave {n s l l' v} : Move ⟨n, s, l ++ seeking :: l', v⟩ ⟨n + 1, s, l ++ away :: l', v⟩
  | take {n r s l l' v} :
      Move ⟨n, r :: s, l ++ seeking :: l', v⟩ ⟨n, s, l ++ holding r :: l', v⟩
  | lack {n l l' v} : Move ⟨n, [], l ++ seeking :: l', v⟩ ⟨n, [], l ++ building :: l', v⟩
  | make {n r s l l' v} (h : r ∉ inventory s (l ++ building :: l')) :
      Move ⟨n, s, l ++ building :: l', v⟩ ⟨n, s, l ++ holding r :: l', insert r v⟩
  | fail {n s l l' v} : Move ⟨n, s, l ++ building :: l', v⟩ ⟨n, s, l ++ seeking :: l', v⟩
  | putBack {n r s l l' v} :
      Move ⟨n, s, l ++ holding r :: l', v⟩ ⟨n, r :: s, l ++ seeking :: l', v⟩
  /-- A resource that is no longer in service is dropped. -/
  | discard {n r s l l' v} (h : r ∉ v) :
      Move ⟨n, s, l ++ holding r :: l', v⟩ ⟨n, s, l ++ seeking :: l', v⟩
  | retire {n s bs v v'} (h : v' ⊆ v) : Move ⟨n, s, bs, v⟩ ⟨n, s, bs, v'⟩
  /-- A new resource is put on the shelf from outside, while there are permits for it. -/
  | supply {n r s bs v} (hn : s.length < n) (h : r ∉ inventory s bs) :
      Move ⟨n, s, bs, v⟩ ⟨n, r :: s, bs, insert r v⟩
  /-- A retired resource on the shelf is put in service again. -/
  | revive {n r s bs v} (h : r ∈ s) : Move ⟨n, s, bs, v⟩ ⟨n, s, bs, insert r v⟩

/-- What holds along every run of a lender with `capacity` permits. -/
structure Inv (capacity : ℕ) (s : Lender ρ) : Prop where
  permits : s.free + s.borrowers.countP permitted = capacity
  /-- For each resource on the shelf there is a permit with which it can be taken. -/
  room : s.shelf.length ≤ s.free + s.borrowers.countP seeks
  nodup : s.stock.Nodup
  owned : ∀ r ∈ s.live, r ∈ s.stock

/-- A borrower whose hands do not change does not change the stock. -/
theorem inventory_congr {s : List ρ} {l l' : List (Borrower ρ)} {b b' : Borrower ρ}
    (h : b.held = b'.held) : inventory s (l ++ b :: l') = inventory s (l ++ b' :: l') := by
  simp only [inventory, List.filterMap_append, List.filterMap_cons, h]

/-- What a borrower has in hand, apart. -/
theorem inventory_holding {r : ρ} {s : List ρ} {l l' : List (Borrower ρ)} {b : Borrower ρ}
    (hb : b.held = none) :
    (inventory s (l ++ holding r :: l')).Perm (r :: inventory s (l ++ b :: l')) := by
  have hr : (holding r).held = some r := rfl
  simp only [inventory, List.filterMap_append, List.filterMap_cons, hb, hr, ← List.append_assoc]
  exact List.perm_middle

/-- A move that only passes a resource between the shelf and a borrower keeps the invariant. -/
theorem Inv.of_perm {capacity : ℕ} {s s' : Lender ρ} (h : s.Inv capacity)
    (hp : s'.free + s'.borrowers.countP permitted = s.free + s.borrowers.countP permitted)
    (hr : s'.shelf.length + (s.free + s.borrowers.countP seeks) ≤
      s.shelf.length + (s'.free + s'.borrowers.countP seeks))
    (hs : s'.stock.Perm s.stock) (hv : s'.live ⊆ s.live) : s'.Inv capacity where
  permits := hp.trans h.permits
  room := by have := h.room; omega
  nodup := hs.nodup_iff.mpr h.nodup
  owned r hr := hs.mem_iff.mpr (h.owned r (hv hr))

/-- A move that brings one new resource in keeps the invariant. -/
theorem Inv.of_new {capacity : ℕ} {s s' : Lender ρ} {r : ρ} (h : s.Inv capacity)
    (hp : s'.free + s'.borrowers.countP permitted = s.free + s.borrowers.countP permitted)
    (hr : s'.shelf.length ≤ s'.free + s'.borrowers.countP seeks)
    (hs : s'.stock.Perm (r :: s.stock)) (hn : r ∉ s.stock) (hv : s'.live = insert r s.live) :
    s'.Inv capacity where
  permits := hp.trans h.permits
  room := hr
  nodup := hs.nodup_iff.mpr (List.nodup_cons.mpr ⟨hn, h.nodup⟩)
  owned x hx := by
    rw [hv] at hx
    rcases hx with rfl | hx
    · exact hs.mem_iff.mpr List.mem_cons_self
    · exact hs.mem_iff.mpr (List.mem_cons_of_mem _ (h.owned x hx))

/-- **What a move preserves.** -/
theorem Move.inv {capacity : ℕ} {s s' : Lender ρ} (hm : Move s s') (h : s.Inv capacity) :
    s'.Inv capacity := by
  cases hm with
  | hire => exact h.of_perm rfl le_rfl (.refl _) subset_rfl
  | enter | leave =>
      refine h.of_perm ?_ ?_ (.of_eq (inventory_congr rfl)) subset_rfl <;>
        simp [List.countP_cons, permitted, seeks] <;> omega
  | take =>
      refine h.of_perm ?_ ?_ (inventory_holding rfl) subset_rfl
      · simp [List.countP_cons, permitted]
      · simp [List.countP_cons, seeks]; omega
  | @lack n l l' v =>
      have hs : (inventory [] (l ++ building :: l')).Perm (inventory [] (l ++ seeking :: l')) :=
        .of_eq (inventory_congr rfl)
      refine ⟨?_, Nat.zero_le _, hs.nodup_iff.mpr h.nodup, fun r hr => ?_⟩
      · simpa [List.countP_cons, permitted] using h.permits
      · exact hs.mem_iff.mpr (h.owned r hr)
  | make hr =>
      refine h.of_new ?_ ?_ (inventory_holding rfl) hr rfl
      · simp [List.countP_cons, permitted]
      · simpa [List.countP_cons, seeks] using h.room
  | fail =>
      refine h.of_perm ?_ ?_ (.of_eq (inventory_congr rfl)) subset_rfl <;>
        simp [List.countP_cons, permitted, seeks]
  | putBack =>
      refine h.of_perm ?_ ?_ (inventory_holding rfl).symm subset_rfl
      · simp [List.countP_cons, permitted]
      · simp [List.countP_cons, seeks]; omega
  | @discard n r s l l' v hr =>
      have hs : (inventory s (l ++ holding r :: l')).Perm
          (r :: inventory s (l ++ seeking :: l')) := inventory_holding rfl
      refine ⟨?_, ?_, (List.nodup_cons.mp (hs.nodup_iff.mp h.nodup)).2, fun x hx => ?_⟩
      · simpa [List.countP_cons, permitted] using h.permits
      · have := h.room
        simp [List.countP_cons, seeks] at this ⊢
        omega
      · rcases List.mem_cons.mp (hs.mem_iff.mp (h.owned x hx)) with rfl | hx'
        · exact absurd hx hr
        · exact hx'
  | retire hv => exact h.of_perm rfl le_rfl (.refl _) hv
  | supply hn hr =>
      refine h.of_new rfl ?_ (.refl _) hr rfl
      simp only [List.length_cons]
      omega
  | revive hr =>
      refine ⟨h.permits, h.room, h.nodup, fun x hx => ?_⟩
      rcases hx with rfl | hx
      · exact List.mem_append_left _ hr
      · exact h.owned x hx

/-- What a move preserves, any number of moves preserve. -/
theorem inv_of_moves {capacity : ℕ} {s s' : Lender ρ} (hm : Relation.ReflTransGen Move s s')
    (h : s.Inv capacity) : s'.Inv capacity := by
  induction hm with
  | refl => exact h
  | tail _ hm ih => exact hm.inv ih

namespace Inv

variable {capacity : ℕ} {s : Lender ρ}

theorem length_held_le : (s.borrowers.filterMap held).length + s.borrowers.countP seeks ≤
    s.borrowers.countP permitted := by
  induction s.borrowers with
  | nil => simp
  | cons b bs ih =>
      cases b <;> simp [List.filterMap_cons, List.countP_cons, held, seeks, permitted] <;> omega

/-- **There are never more resources in service than permits.** -/
theorem length_le (h : s.Inv capacity) {l : List ρ} (hl : l.Nodup) (hs : ∀ r ∈ l, r ∈ s.live) :
    l.length ≤ capacity := by
  have hsub : l.length ≤ s.stock.length :=
    (hl.subperm fun r hr => h.owned r (hs r hr)).length_le
  have hstock : s.stock.length = s.shelf.length + (s.borrowers.filterMap held).length :=
    List.length_append
  have := h.room
  have := h.permits
  have := length_held_le (s := s)
  omega

/-- A resource in hand is not on the shelf. -/
theorem notMem_shelf (h : s.Inv capacity) {b : Borrower ρ} {r : ρ} (hb : b ∈ s.borrowers)
    (hr : b.held = some r) : r ∉ s.shelf := fun hs =>
  (List.nodup_append.mp h.nodup).2.2 r hs r (List.mem_filterMap.mpr ⟨b, hb, hr⟩) rfl

/-- What one borrower has in hand, no other has. -/
theorem held_ne (h : s.Inv capacity) (l l' : List (Borrower ρ)) {b b' : Borrower ρ} {r : ρ}
    (hs : s.borrowers = l ++ b :: l') (hb : b.held = some r) (hb' : b' ∈ l ++ l') :
    b'.held ≠ some r := by
  intro hr
  have hn : (r :: (l ++ l').filterMap held).Nodup := by
    have hp : (s.borrowers.filterMap held).Perm (r :: (l ++ l').filterMap held) := by
      simp [hs, hb]
    exact hp.nodup_iff.mp (List.nodup_append.mp h.nodup).2.1
  exact (List.nodup_cons.mp hn).1 (List.mem_filterMap.mpr ⟨b', hb', hr⟩)

/-- **No resource is held by two borrowers.** -/
theorem exclusive (h : s.Inv capacity) {i j : ℕ} {b b' : Borrower ρ} {r : ρ}
    (hi : s.borrowers[i]? = some b) (hj : s.borrowers[j]? = some b') (hb : b.held = some r)
    (hb' : b'.held = some r) : i = j := by
  have hp := List.pairwise_filterMap.mp (List.nodup_append.mp h.nodup).2.1
  rw [List.pairwise_iff_getElem] at hp
  obtain ⟨hil, rfl⟩ := List.getElem?_eq_some_iff.mp hi
  obtain ⟨hjl, rfl⟩ := List.getElem?_eq_some_iff.mp hj
  rcases lt_trichotomy i j with hij | hij | hij
  · exact absurd rfl (hp i j hil hjl hij r hb r hb')
  · exact hij
  · exact absurd rfl (hp j i hjl hil hij r hb' r hb)

end Inv

end Lender
