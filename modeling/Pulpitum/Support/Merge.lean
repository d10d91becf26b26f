import Mathlib
import Pulpitum.Support.Paging

/-!
# Support — Merge

Merging sources that share no key by sorting what they return, one after the other.  Records of
one source may have the same key; the sort is stable and keeps them in their order.

* `withKey_sortOn`, `eq_of_withKey`: a sorted list is given by its records of each key, in order.
* `sortOn_flatMap_congr`: **the order of the sources does not matter.**
* `cut_truncated`: a page cut from truncated sources, in any order, is the page cut from all of
  them.
-/

namespace Paging

variable {α β K : Type*} [LinearOrder K] {key : α → K} {l l' : List α} {k : K} {x : α}

/-! ### Stability -/

/-- The records with the key `k`, in their order. -/
def withKey (key : α → K) (k : K) (l : List α) : List α := l.filter fun a => key a = k

theorem mem_withKey : x ∈ withKey key k l ↔ x ∈ l ∧ key x = k := by
  simp [withKey]

theorem withKey_cons_self (a : α) (l : List α) :
    withKey key (key a) (a :: l) = a :: withKey key (key a) l := by
  simp [withKey]

theorem withKey_cons_of_ne {a : α} (h : key a ≠ k) : withKey key k (a :: l) = withKey key k l := by
  simp [withKey, h]

/-- Sorting keeps records with one key in their order. -/
theorem withKey_sortOn (key : α → K) (k : K) (l : List α) :
    withKey key k (sortOn key l) = withKey key k l := by
  have : Std.Total fun a b : α => key a ≤ key b := ⟨fun _ _ => le_total _ _⟩
  have : IsTrans α fun a b : α => key a ≤ key b := ⟨fun _ _ _ => le_trans⟩
  have hequal : (withKey key k l).Pairwise fun a b => key a ≤ key b := by
    refine List.pairwise_of_forall_mem_list fun a ha b hb => ?_
    rw [(mem_withKey.mp ha).2, (mem_withKey.mp hb).2]
  have hsub : (withKey key k l).Sublist (sortOn key l) :=
    List.sublist_insertionSort hequal List.filter_sublist
  have hself : withKey key k (withKey key k l) = withKey key k l := by
    simp [withKey]
  have hsub' : (withKey key k l).Sublist (withKey key k (sortOn key l)) :=
    hself ▸ hsub.filter _
  exact (hsub'.eq_of_length ((sortOn_perm key l).filter _).length_eq.symm).symm

theorem mem_iff_of_withKey (h : ∀ k, withKey key k l = withKey key k l') (x : α) :
    x ∈ l ↔ x ∈ l' := by
  have hx : x ∈ withKey key (key x) l ↔ x ∈ withKey key (key x) l' := by rw [h]
  simpa [mem_withKey] using hx

/-- A sorted list is given by its records of each key. -/
theorem eq_of_withKey (hl : l.Pairwise fun a b => key a ≤ key b)
    (hl' : l'.Pairwise fun a b => key a ≤ key b)
    (h : ∀ k, withKey key k l = withKey key k l') : l = l' := by
  have hmem := mem_iff_of_withKey h
  induction l generalizing l' with
  | nil =>
      cases l' with
      | nil => rfl
      | cons b l' => exact absurd ((hmem b).mpr (List.mem_cons_self ..)) List.not_mem_nil
  | cons a l ih =>
      cases l' with
      | nil => exact absurd ((hmem a).mp (List.mem_cons_self ..)) List.not_mem_nil
      | cons b l' =>
          obtain ⟨hhead, hrest⟩ := List.pairwise_cons.mp hl
          obtain ⟨hhead', hrest'⟩ := List.pairwise_cons.mp hl'
          -- each head is the least of both lists
          have hle : key a ≤ key b := by
            rcases List.mem_cons.mp ((hmem b).mpr (List.mem_cons_self ..)) with rfl | hb
            · exact le_rfl
            · exact hhead b hb
          have hge : key b ≤ key a := by
            rcases List.mem_cons.mp ((hmem a).mp (List.mem_cons_self ..)) with rfl | ha
            · exact le_rfl
            · exact hhead' a ha
          have hkey : key a = key b := le_antisymm hle hge
          obtain ⟨rfl, htail⟩ : a = b ∧ withKey key (key a) l = withKey key (key a) l' := by
            have hk := h (key a)
            rw [withKey_cons_self, hkey, withKey_cons_self] at hk
            rw [hkey]
            exact List.cons.inj hk
          have heach : ∀ k, withKey key k l = withKey key k l' := by
            intro k
            by_cases hk : key a = k
            · exact hk ▸ htail
            · have hk' := h k
              rwa [withKey_cons_of_ne hk, withKey_cons_of_ne hk] at hk'
          exact congrArg (a :: ·) (ih hrest hrest' heach (mem_iff_of_withKey heach))

/-- Lists with the same records of each key, in order, are sorted alike. -/
theorem sortOn_eq_of_withKey (h : ∀ k, withKey key k l = withKey key k l') :
    sortOn key l = sortOn key l' := by
  refine eq_of_withKey (sortOn_pairwise key l) (sortOn_pairwise key l') fun k => ?_
  rw [withKey_sortOn, withKey_sortOn, h]

/-- A sorted list is sorted already. -/
theorem sortOn_of_pairwise (h : l.Pairwise fun a b => key a ≤ key b) : sortOn key l = l :=
  eq_of_withKey (sortOn_pairwise key l) h fun k => withKey_sortOn key k l

/-! ### Sources that share no key -/

/-- Records of two sources have different keys. -/
def Separate (key : α → K) (f : β → List α) : Prop :=
  ∀ {b b' x y}, x ∈ f b → y ∈ f b' → key x = key y → b = b'

variable {f g : β → List α} {bs bs' : List β}

omit [LinearOrder K] in
theorem Separate.mono (h : Separate key f) (hs : ∀ b, g b ⊆ f b) : Separate key g :=
  fun hx hy => h (hs _ hx) (hs _ hy)

theorem withKey_flatMap (k : K) (bs : List β) :
    withKey key k (bs.flatMap f) = bs.flatMap fun b => withKey key k (f b) := by
  simp [withKey, List.filter_flatMap]

/-- The records with the key of a record all come from its source. -/
theorem Separate.withKey_flatMap (h : Separate key f) (hn : bs.Nodup) {b : β} (hb : b ∈ bs)
    (hx : x ∈ f b) : withKey key (key x) (bs.flatMap f) = withKey key (key x) (f b) := by
  have hother : ∀ b' ∈ bs, b' ≠ b → withKey key (key x) (f b') = [] := by
    intro b' _ hne
    refine List.eq_nil_iff_forall_not_mem.mpr fun y hy => ?_
    obtain ⟨hy, hkey⟩ := mem_withKey.mp hy
    exact hne (h hy hx hkey)
  rw [Paging.withKey_flatMap]
  induction bs with
  | nil => cases hb
  | cons c bs ih =>
      obtain ⟨hc, hn⟩ := List.nodup_cons.mp hn
      rw [List.flatMap_cons]
      rcases List.mem_cons.mp hb with rfl | hb
      · have hnil : (bs.flatMap fun b' => withKey key (key x) (f b')) = [] :=
          List.flatMap_eq_nil_iff.mpr fun b' hb' =>
            hother b' (List.mem_cons_of_mem _ hb') fun e => hc (e ▸ hb')
        rw [hnil, List.append_nil]
      · have hnil : withKey key (key x) (f c) = [] :=
          hother c (List.mem_cons_self ..) fun e => hc (e ▸ hb)
        rw [hnil, List.nil_append]
        exact ih hn hb fun b' hb' => hother b' (List.mem_cons_of_mem _ hb')

/-- **The order of the sources does not matter**, nor which of the empty ones are listed. -/
theorem sortOn_flatMap_congr (h : Separate key f) (hn : bs.Nodup) (hn' : bs'.Nodup)
    (hsame : ∀ b, f b ≠ [] → (b ∈ bs ↔ b ∈ bs')) :
    sortOn key (bs.flatMap f) = sortOn key (bs'.flatMap f) := by
  refine sortOn_eq_of_withKey fun k => ?_
  by_cases hk : ∃ b x, x ∈ f b ∧ key x = k ∧ b ∈ bs
  · obtain ⟨b, x, hx, rfl, hb⟩ := hk
    have hb' := (hsame b (List.ne_nil_of_mem hx)).mp hb
    rw [h.withKey_flatMap hn hb hx, h.withKey_flatMap hn' hb' hx]
  · have hnone : ∀ cs : List β, (∀ b ∈ cs, f b ≠ [] → b ∈ bs) →
        withKey key k (cs.flatMap f) = [] := by
      intro cs hcs
      refine List.eq_nil_iff_forall_not_mem.mpr fun x hx => ?_
      obtain ⟨hx, hkey⟩ := mem_withKey.mp hx
      obtain ⟨b, hb, hx⟩ := List.mem_flatMap.mp hx
      exact hk ⟨b, x, hx, hkey, hcs b hb (List.ne_nil_of_mem hx)⟩
    rw [hnone bs fun b hb _ => hb, hnone bs' fun b hb hne => (hsame b hne).mpr hb]

/-- Sources in the order of their keys are merged by sorting each. -/
theorem sortOn_flatMap (h : bs.Pairwise fun b b' => ∀ x ∈ f b, ∀ y ∈ f b', key x ≤ key y) :
    sortOn key (bs.flatMap f) = bs.flatMap fun b => sortOn key (f b) := by
  refine eq_of_withKey (sortOn_pairwise key _) ?_ fun k => ?_
  · refine List.pairwise_flatMap.mpr ⟨fun b _ => sortOn_pairwise key _,
      h.imp fun hle x hx y hy => ?_⟩
    exact hle x ((sortOn_perm key _).mem_iff.mp hx) y ((sortOn_perm key _).mem_iff.mp hy)
  · rw [withKey_sortOn, Paging.withKey_flatMap, Paging.withKey_flatMap]
    exact List.flatMap_congr fun b _ => (withKey_sortOn key k (f b)).symm

/-! ### Truncated sources -/

/-- Sources truncated at `m` start like the whole ones. -/
theorem take_flatMap_take {m n : ℕ} (h : n ≤ m) (bs : List β) :
    (bs.flatMap fun b => (f b).take m).take n = (bs.flatMap f).take n := by
  induction bs generalizing n with
  | nil => rfl
  | cons b bs ih =>
      rw [List.flatMap_cons, List.flatMap_cons, List.take_append, List.take_append, List.take_take,
        min_eq_left h, ih ((Nat.sub_le _ _).trans h), List.length_take]
      rcases le_total (f b).length m with hle | hle
      · rw [min_eq_right hle]
      · rw [min_eq_left hle, Nat.sub_eq_zero_of_le h, Nat.sub_eq_zero_of_le (h.trans hle)]

/-- **Truncated sources, read in any order, give the page.**  The sources `bs` are in the order of
their keys and `bs'` is any order of them; `all` may have other sources, without records. -/
theorem cut_truncated {limit m : ℕ} {all : List β} (hs : Separate key f) (hn : bs.Nodup)
    (hall : all.Nodup) (hperm : bs'.Perm bs) (hsame : ∀ b, f b ≠ [] → (b ∈ all ↔ b ∈ bs))
    (hord : bs.Pairwise fun b b' => ∀ x ∈ f b, ∀ y ∈ f b', key x ≤ key y)
    (hm : limit < m ∨ limit ≤ m ∧ (bs.flatMap f).length ≤ limit) :
    cut key limit (bs'.flatMap fun b => (sortOn key (f b)).take m) =
      cut key limit (all.flatMap f) := by
  have hsub : ∀ b, (sortOn key (f b)).take m ⊆ f b := fun b x hx =>
    (sortOn_perm key _).mem_iff.mp (List.mem_of_mem_take hx)
  have hpart : sortOn key (bs'.flatMap fun b => (sortOn key (f b)).take m) =
      bs.flatMap fun b => (sortOn key (f b)).take m := by
    rw [sortOn_flatMap_congr (hs.mono hsub) (hperm.nodup_iff.mpr hn) hn fun b _ => hperm.mem_iff]
    rw [sortOn_flatMap (hord.imp fun hle x hx y hy => hle x (hsub _ hx) y (hsub _ hy))]
    refine List.flatMap_congr fun b _ => sortOn_of_pairwise ?_
    exact (sortOn_pairwise key (f b)).sublist (List.take_sublist ..)
  have hwhole : sortOn key (all.flatMap f) = bs.flatMap fun b => sortOn key (f b) := by
    rw [sortOn_flatMap_congr hs hall hn hsame, sortOn_flatMap hord]
  have htake : ∀ {n}, n ≤ m → (bs.flatMap fun b => (sortOn key (f b)).take m).take n =
      (bs.flatMap fun b => sortOn key (f b)).take n := fun hle => take_flatMap_take hle bs
  have hlen : limit < (bs.flatMap fun b => (sortOn key (f b)).take m).length ↔
      limit < (bs.flatMap fun b => sortOn key (f b)).length := by
    rcases hm with hlt | ⟨-, hfits⟩
    · have hcut := congrArg List.length (htake hlt)
      rw [List.length_take, List.length_take] at hcut
      omega
    · have hsame : (bs.flatMap fun b => sortOn key (f b)).length = (bs.flatMap f).length := by
        rw [← sortOn_flatMap hord, (sortOn_perm key _).length_eq]
      have hle : (bs.flatMap fun b => (sortOn key (f b)).take m).length ≤
          (bs.flatMap fun b => sortOn key (f b)).length :=
        (subperm_flatMap fun b _ => (List.take_sublist ..).subperm).length_le
      omega
  simp only [cut, hpart, hwhole, htake (hm.elim le_of_lt And.left), hlen]

end Paging
