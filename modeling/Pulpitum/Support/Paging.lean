import Mathlib

/-!
# Support — Paging

Reading a keyed collection page by page while it grows.  The collection is spread over sources;
each is read on its own, sorted, filtered to what lies after the last page and truncated, and a
page is cut from the merge.

* `take_sortOn_flatMap`: **truncating the sources does not change the start of their merge.**
* `IsCut`: what a page has to be, of the records it was cut from.
* `Scanned.cut`, `Scanned.last`: a scan that has returned everything up to its position still
  has after one more page.
-/

namespace Paging

variable {α K : Type*}

/-- No two records have one key. -/
def Distinct (key : α → K) (l : List α) : Prop := l.Pairwise fun a b => key a ≠ key b

variable {key : α → K} {l l' : List α} {m : ℕ}

theorem Distinct.perm (h : Distinct key l) (hp : l.Perm l') : Distinct key l' :=
  (hp.pairwise_iff Ne.symm).mp h

theorem Distinct.subperm (h : Distinct key l) (hs : l'.Subperm l) : Distinct key l' := by
  obtain ⟨l₁, hp, hl⟩ := hs
  exact Distinct.perm (List.Pairwise.sublist hl h) hp

theorem Distinct.nodup (h : Distinct key l) : l.Nodup :=
  List.Pairwise.imp (fun hne e => hne (congrArg key e)) h

/-! ### Sorting -/

variable [LinearOrder K]

/-- Sorted by key; records with one key stay in their order. -/
def sortOn (key : α → K) (l : List α) : List α := l.insertionSort fun a b => key a ≤ key b

variable (key) in
theorem sortOn_perm (l : List α) : (sortOn key l).Perm l := List.perm_insertionSort _ _

variable (key) in
theorem sortOn_pairwise (l : List α) : (sortOn key l).Pairwise fun a b => key a ≤ key b := by
  have : Std.Total fun a b : α => key a ≤ key b := ⟨fun _ _ => le_total _ _⟩
  have : IsTrans α fun a b : α => key a ≤ key b := ⟨fun _ _ _ => le_trans⟩
  exact List.pairwise_insertionSort _ _

/-- Records with different keys are in strict order once sorted. -/
theorem sortOn_strict (h : Distinct key l) : (sortOn key l).Pairwise fun a b => key a < key b :=
  ((sortOn_pairwise key l).and (h.perm (sortOn_perm key l).symm)).imp fun h =>
    lt_of_le_of_ne h.1 h.2

theorem sortOn_nodup (h : Distinct key l) : (sortOn key l).Nodup :=
  (h.perm (sortOn_perm key l).symm).nodup

/-- A part of a collection comes in the order it has in the whole. -/
theorem sortOn_sublist (h : Distinct key l) (hs : l'.Subperm l) :
    (sortOn key l').Sublist (sortOn key l) := by
  have : IsTrans α fun a b : α => key a < key b := ⟨fun _ _ _ => lt_trans⟩
  have : Std.Antisymm fun a b : α => key a < key b := ⟨fun _ _ h₁ h₂ => absurd h₂ h₁.asymm⟩
  refine List.sublist_of_subperm_of_pairwise ?_ (sortOn_strict (h.subperm hs)) (sortOn_strict h)
  exact ((sortOn_perm key l').subperm.trans hs).trans (sortOn_perm key l).symm.subperm

/-- The order in which records come does not matter to their sorting. -/
theorem sortOn_congr (h : Distinct key l) (hp : l.Perm l') : sortOn key l = sortOn key l' :=
  (sortOn_sublist (h.perm hp) hp.subperm).eq_of_length
    (((sortOn_perm key l).trans hp).trans (sortOn_perm key l').symm).length_eq

/-! ### Truncated sources -/

/-- A record among the first of a list is among the first of every part that has it. -/
theorem mem_take_of_sublist {x : α} (hs : l'.Sublist l) (hn : l.Nodup) (hx : x ∈ l')
    (hm : x ∈ l.take m) : x ∈ l'.take m := by
  induction hs generalizing m with
  | slnil => cases hx
  | @cons l' l a hs ih =>
      cases m with
      | zero => cases hm
      | succ m =>
          have hne : x ≠ a := fun e => (List.nodup_cons.mp hn).1 (e ▸ hs.subset hx)
          have hm : x ∈ l.take m := (List.mem_cons.mp hm).resolve_left hne
          exact (List.take_sublist_take_left (Nat.le_succ m)).subset
            (ih (List.nodup_cons.mp hn).2 hx hm)
  | @cons_cons l' l a hs ih =>
      cases m with
      | zero => cases hm
      | succ m =>
          by_cases e : x = a
          · subst e; exact List.mem_cons_self ..
          · exact List.mem_cons_of_mem _ (ih (List.nodup_cons.mp hn).2
              ((List.mem_cons.mp hx).resolve_left e) ((List.mem_cons.mp hm).resolve_left e))

/-- A part that has the first records of a list starts with them. -/
theorem take_eq_of_sublist (hs : l'.Sublist l) (hn : l.Nodup) (h : ∀ x ∈ l.take m, x ∈ l') :
    l'.take m = l.take m := by
  induction hs generalizing m with
  | slnil => rfl
  | @cons l' l a hs ih =>
      cases m with
      | zero => rfl
      | succ m =>
          -- the part would have the head of the list among its tail
          have ha : a ∈ l := hs.subset (h a (List.mem_cons_self ..))
          exact absurd ha (List.nodup_cons.mp hn).1
  | @cons_cons l' l a hs ih =>
      cases m with
      | zero => rfl
      | succ m =>
          obtain ⟨ha, hn⟩ := List.nodup_cons.mp hn
          refine congrArg (a :: ·) (ih hn fun x hx => ?_)
          have hne : x ≠ a := fun e => ha (e ▸ List.mem_of_mem_take hx)
          exact (List.mem_cons.mp (h x (List.mem_cons_of_mem _ hx))).resolve_left hne

theorem subperm_flatMap {β : Type*} {f g : β → List α} :
    ∀ {bs : List β}, (∀ b ∈ bs, (f b).Subperm (g b)) → (bs.flatMap f).Subperm (bs.flatMap g)
  | [], _ => List.Subperm.refl _
  | b :: bs, h => by
      rw [List.flatMap_cons, List.flatMap_cons]
      exact (h b (List.mem_cons_self ..)).append
        (subperm_flatMap fun b' hb => h b' (List.mem_cons_of_mem _ hb))

variable (key m) in
theorem flatMap_take_subperm (sources : List (List α)) :
    (sources.flatMap fun l => (sortOn key l).take m).Subperm sources.flatten := by
  rw [← List.flatMap_id]
  exact subperm_flatMap fun l _ =>
    (List.take_sublist ..).subperm.trans (sortOn_perm key l).subperm

/-- **Truncating the sources does not change the start of their merge.** -/
theorem take_sortOn_flatMap {sources : List (List α)} (h : Distinct key sources.flatten) :
    (sortOn key (sources.flatMap fun l => (sortOn key l).take m)).take m =
      (sortOn key sources.flatten).take m := by
  refine take_eq_of_sublist (sortOn_sublist h (flatMap_take_subperm key m sources))
    (sortOn_nodup h) fun x hx => ?_
  -- the source of an early record returns it, being early there too
  obtain ⟨l, hl, hxl⟩ := List.mem_flatten.mp
    ((sortOn_perm key _).mem_iff.mp (List.mem_of_mem_take hx))
  have hearly := mem_take_of_sublist
    (sortOn_sublist h (List.sublist_flatten_of_mem hl).subperm) (sortOn_nodup h)
    ((sortOn_perm key l).mem_iff.mpr hxl) hx
  exact (sortOn_perm key _).mem_iff.mpr (List.mem_flatMap.mpr ⟨l, hl, hearly⟩)

/-! ### Pages -/

/-- The page cut from `l`: its first records, and the last of them if there are more. -/
def cut (key : α → K) (limit : ℕ) (l : List α) : List α × Option α :=
  let page := (sortOn key l).take limit
  (page, if limit < (sortOn key l).length then page.getLast? else none)

theorem cut_congr {limit : ℕ} (h : Distinct key l) (hp : l.Perm l') :
    cut key limit l = cut key limit l' := by
  simp only [cut, sortOn_congr h hp]

/-- Sources truncated beyond the page, or not at all, give the same page. -/
theorem cut_flatMap {sources : List (List α)} {limit : ℕ} (h : Distinct key sources.flatten)
    (hm : limit < m ∨ limit ≤ m ∧ sources.flatten.length ≤ limit) :
    cut key limit (sources.flatMap fun l => (sortOn key l).take m) =
      cut key limit sources.flatten := by
  set part := sortOn key (sources.flatMap fun l => (sortOn key l).take m) with hpart
  have htake : part.take m = (sortOn key sources.flatten).take m := take_sortOn_flatMap h
  have hle : limit ≤ m := hm.elim le_of_lt And.left
  have hpage : part.take limit = (sortOn key sources.flatten).take limit := by
    have := congrArg (List.take limit) htake
    rwa [List.take_take, List.take_take, min_eq_left hle] at this
  have hlen : limit < part.length ↔ limit < (sortOn key sources.flatten).length := by
    have hmin := congrArg List.length htake
    rw [List.length_take, List.length_take] at hmin
    have hle' : part.length ≤ (sortOn key sources.flatten).length :=
      (sortOn_sublist h (flatMap_take_subperm key m sources)).length_le
    have hall : (sortOn key sources.flatten).length = sources.flatten.length :=
      (sortOn_perm key _).length_eq
    omega
  simp only [cut, ← hpart, hpage, hlen]

/-- What a page and the record it stops at have to be, of the records `l` it was cut from. -/
structure IsCut (key : α → K) (l page : List α) (last : Option α) : Prop where
  sub : page ⊆ l
  strict : page.Pairwise fun a b => key a < key b
  /-- A page without a last record has everything. -/
  whole : last = none → l ⊆ page
  /-- A page that stops has everything up to the record it stops at, and nothing after it. -/
  stop : ∀ z ∈ last, z ∈ page ∧ (∀ x ∈ page, key x ≤ key z) ∧ ∀ x ∈ l, x ∈ page ∨ key z < key x

theorem cut_isCut {limit : ℕ} (hl : 0 < limit) (h : Distinct key l) :
    IsCut key l (cut key limit l).1 (cut key limit l).2 where
  sub := fun _ hx => (sortOn_perm key l).mem_iff.mp (List.mem_of_mem_take hx)
  strict := (sortOn_strict h).sublist (List.take_sublist ..)
  whole hnone x hx := by
    have hlen : (sortOn key l).length ≤ limit := by
      by_contra hlt
      have hpos : (sortOn key l).take limit ≠ [] := by
        rw [Ne, List.take_eq_nil_iff, not_or]
        exact ⟨hl.ne', fun e => by rw [e] at hlt; exact hlt (Nat.zero_le _)⟩
      simp only [cut, if_pos (not_le.mp hlt), List.getLast?_eq_none_iff] at hnone
      exact hpos hnone
    simp only [cut, List.take_of_length_le hlen]
    exact (sortOn_perm key l).mem_iff.mpr hx
  stop z hz := by
    simp only [cut, Option.mem_def, Option.ite_none_right_eq_some] at hz
    obtain ⟨-, hz⟩ := hz
    have hmem := List.mem_of_getLast? hz
    obtain ⟨front, hfront⟩ := List.getLast?_eq_some_iff.mp hz
    have hsorted := (sortOn_strict h).sublist (List.take_sublist limit _)
    refine ⟨hmem, fun x hx => ?_, fun x hx => ?_⟩
    · simp only [cut] at hx
      rw [hfront] at hx hsorted
      rcases List.mem_append.mp hx with hx | hx
      · exact ((List.pairwise_append.mp hsorted).2.2 x hx z (List.mem_singleton_self z)).le
      · rw [List.mem_singleton.mp hx]
    · -- what is not on the page comes after all of it
      have hx := (sortOn_perm key l).mem_iff.mpr hx
      rw [← List.take_append_drop limit (sortOn key l)] at hx
      refine (List.mem_append.mp hx).imp id fun hx => ?_
      have hall := sortOn_strict h
      rw [← List.take_append_drop limit (sortOn key l)] at hall
      exact (List.pairwise_append.mp hall).2.2 z hmem x hx

/-- A page that stops is full. -/
theorem length_of_cut {limit : ℕ} {z : α} (h : (cut key limit l).2 = some z) :
    (cut key limit l).1.length = limit := by
  simp only [cut, Option.ite_none_right_eq_some] at h
  simp only [cut, List.length_take]
  omega

/-! ### Scans -/

/-- The key lies after the position, if there is one. -/
def After (position : Option K) (k : K) : Prop := ∀ c ∈ position, c < k

/-- A scan has returned `out` and stands at `position`: what it returned is in order and not after
the position, and of the records in `base` it has returned all up to there. -/
structure Scanned (key : α → K) (base : α → Prop) (out : List α) (position : Option K) :
    Prop where
  strict : out.Pairwise fun a b => key a < key b
  passed : ∀ x ∈ out, ∃ c ∈ position, key x ≤ c
  complete : ∀ x, base x → x ∈ out ∨ After position (key x)

namespace Scanned

variable {base : α → Prop} {out page : List α} {position : Option K}

theorem init : Scanned key base [] none :=
  ⟨.nil, fun _ => (absurd · List.not_mem_nil), fun _ _ => .inr fun _ h => nomatch h⟩

/-- Records after the position follow what was returned. -/
theorem strict_append {last : Option α} (h : Scanned key base out position)
    (hafter : ∀ x ∈ l, After position (key x)) (hc : IsCut key l page last) :
    (out ++ page).Pairwise fun a b => key a < key b := by
  refine List.pairwise_append.mpr ⟨h.strict, hc.strict, fun x hx y hy => ?_⟩
  obtain ⟨c, hpos, hle⟩ := h.passed x hx
  exact hle.trans_lt (hafter y (hc.sub hy) c hpos)

/-- **One more page**: the scan goes on from the record at which the page stops. -/
theorem cut {z : α} (h : Scanned key base out position)
    (hall : ∀ x, base x → After position (key x) → x ∈ l)
    (hafter : ∀ x ∈ l, After position (key x)) (hc : IsCut key l page (some z)) :
    Scanned key base (out ++ page) (some (key z)) := by
  obtain ⟨hz, hle, hrest⟩ := hc.stop z rfl
  refine ⟨h.strict_append hafter hc, fun x hx => ⟨_, rfl, ?_⟩, fun x hx => ?_⟩
  · rcases List.mem_append.mp hx with hx | hx
    · obtain ⟨c, hpos, hxc⟩ := h.passed x hx
      exact hxc.trans (hafter z (hc.sub hz) c hpos).le
    · exact hle x hx
  · rcases h.complete x hx with hout | hpos
    · exact .inl (List.mem_append_left _ hout)
    · refine (hrest x (hall x hx hpos)).imp (List.mem_append_right _) fun hlt c hc => ?_
      cases hc
      exact hlt

/-- **The last page**: everything in `base` has been returned. -/
theorem last (h : Scanned key base out position)
    (hall : ∀ x, base x → After position (key x) → x ∈ l) (hc : IsCut key l page none) {x : α}
    (hx : base x) : x ∈ out ++ page :=
  (h.complete x hx).elim (List.mem_append_left _) fun hpos =>
    List.mem_append_right _ (hc.whole rfl (hall x hx hpos))

end Scanned

end Paging
