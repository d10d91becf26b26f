import Mathlib
import Pulpitum.Support.Fallible
import Pulpitum.Support.Text
import Pulpitum.Adapters.CockroachCalls

/-!
# Adapters — Cockroach schema

The planner of migrations.  It looks at every row of the history of applied migrations, in any
order, then at the versions it has seen in theirs, and returns the migrations that are left.
`none` stands for a panic.

* `checkApplied_of_known`, `known_of_checkApplied`: the first loop passes a history of different
  versions that all belong to known migrations, and no other.
* `checkGaps_spec`: the second passes the versions of the first migrations, and does not leave the
  list.
* `planned_iff`: **a history is accepted exactly when it is that of the first migrations**, and
  what is planned is the rest.
-/

namespace Pulpitum
namespace Cockroach

open Text Fallible

section Plan

-- the digest that `Sha256` computes
variable (digest : List Byte → List Byte)

/-- `migration_checksum`. -/
def migrationChecksum (sql : String) : String := hexEncode (digest (utf8 sql))

/-- `SchemaMigration::checksum`. -/
def SchemaMigration.checksum (m : SchemaMigration) : String := migrationChecksum digest m.sql

/-- The row that a migration leaves in the history. -/
def SchemaMigration.applied (m : SchemaMigration) : AppliedMigration :=
  ⟨m.version, m.name, m.checksum digest⟩

/-- `expected.get`: of migrations with one version, the map keeps the last. -/
def expectedAt (migrations : List SchemaMigration) (version : ℤ) : Option SchemaMigration :=
  migrations.reverse.find? (·.version = version)

/-- The body of the first loop of `plan_migrations`: `seen` are the versions before the row. -/
def checkRow (migrations : List SchemaMigration) (first latest : SchemaMigration) (seen : List ℤ)
    (row : AppliedMigration) : Except CockroachSchemaError Unit :=
  if row.version ∈ seen then .error (.duplicateVersion row.version)
  else if row.version < first.version then
    .error (.unsupportedHistoricalVersion row.version first.version)
  else if row.version > latest.version then .error (.futureVersion row.version latest.version)
  else
    match expectedAt migrations row.version with
    | none =>
        let missing := (migrations.find? (·.version > row.version)).map SchemaMigration.version
        .error (.migrationGap (missing.getD row.version) row.version)
    | some m =>
        if row.name ≠ m.name ∨ row.checksum ≠ m.checksum digest then
          .error (.checksumDrift row.version m.name (m.checksum digest) row.name row.checksum)
        else .ok ()

/-- The first loop of `plan_migrations`; the versions it has seen are in their order. -/
def checkApplied (migrations : List SchemaMigration) (first latest : SchemaMigration) :
    List ℤ → List AppliedMigration → Except CockroachSchemaError (List ℤ)
  | seen, [] => .ok seen
  | seen, row :: rest => do
      checkRow digest migrations first latest seen row
      checkApplied migrations first latest (seen.orderedInsert (· ≤ ·) row.version) rest

/-- The second loop of `plan_migrations`, from an index on. -/
def checkGaps (migrations : List SchemaMigration) :
    ℕ → List ℤ → Option (Except CockroachSchemaError Unit)
  | _, [] => some (.ok ())
  | index, version :: rest => do
      let expected ← migrations[index]?
      if version ≠ expected.version then
        return .error (.migrationGap expected.version version)
      checkGaps migrations (index + 1) rest

/-- `plan_migrations`. -/
def planMigrations (migrations : List SchemaMigration) (applied : List AppliedMigration) :
    Option (Except CockroachSchemaError (List SchemaMigration)) := do
  let first ← migrations.head?
  let latest ← migrations.getLast?
  match checkApplied digest migrations first latest [] applied with
  | .error e => return .error e
  | .ok seen =>
      match ← checkGaps migrations 0 seen with
      | .error e => return .error e
      | .ok () => return .ok (migrations.filter (·.version ∉ seen))

/-! ### The first loop -/

/-- The migrations are in the order of their versions, all different. -/
def Ascending (migrations : List SchemaMigration) : Prop :=
  migrations.Pairwise fun a b => a.version < b.version

variable {digest} {migrations : List SchemaMigration} {first latest : SchemaMigration}
  {seen seen' : List ℤ} {applied : List AppliedMigration} {row : AppliedMigration}

theorem Ascending.eq_of_version (h : Ascending migrations) {m m' : SchemaMigration}
    (hm : m ∈ migrations) (hm' : m' ∈ migrations) (hv : m.version = m'.version) : m = m' := by
  have hinj := List.inj_on_of_nodup_map (f := SchemaMigration.version)
    (List.pairwise_map.mpr (h.imp fun hlt => hlt.ne))
  exact hinj hm hm' hv

theorem Ascending.versions_nodup (h : Ascending migrations) :
    (migrations.map SchemaMigration.version).Nodup :=
  List.pairwise_map.mpr (h.imp fun hlt => hlt.ne)

theorem Ascending.bounds (h : Ascending migrations) (hf : migrations.head? = some first)
    (hl : migrations.getLast? = some latest) {m : SchemaMigration} (hm : m ∈ migrations) :
    first.version ≤ m.version ∧ m.version ≤ latest.version := by
  constructor
  · cases migrations with
    | nil => cases hf
    | cons x rest =>
        cases hf
        rcases List.mem_cons.mp hm with rfl | hm
        · exact le_rfl
        · exact (List.rel_of_pairwise_cons h hm).le
  · obtain ⟨rest, rfl⟩ := List.getLast?_eq_some_iff.mp hl
    rcases List.mem_append.mp hm with hm | hm
    · exact ((List.pairwise_append.mp h).2.2 m hm latest (List.mem_singleton.mpr rfl)).le
    · rw [List.mem_singleton.mp hm]

theorem expectedAt_eq_some_iff (h : Ascending migrations) {v : ℤ} {m : SchemaMigration} :
    expectedAt migrations v = some m ↔ m ∈ migrations ∧ m.version = v := by
  unfold expectedAt
  constructor
  · intro hfind
    exact ⟨List.mem_reverse.mp (List.mem_of_find?_eq_some hfind),
      by simpa using List.find?_some hfind⟩
  · rintro ⟨hm, rfl⟩
    cases hfind : migrations.reverse.find? (·.version = m.version) with
    | none =>
        have := List.find?_eq_none.mp hfind m (List.mem_reverse.mpr hm)
        simp at this
    | some m' =>
        have hm' := List.mem_reverse.mp (List.mem_of_find?_eq_some hfind)
        have hv : m'.version = m.version := by simpa using List.find?_some hfind
        rw [h.eq_of_version hm' hm hv]

/-- A row passes when its version is new and it is the row of a migration. -/
theorem checkRow_eq_ok_iff (h : Ascending migrations) (hf : migrations.head? = some first)
    (hl : migrations.getLast? = some latest) :
    checkRow digest migrations first latest seen row = .ok () ↔
      row.version ∉ seen ∧ ∃ m ∈ migrations, m.applied digest = row := by
  unfold checkRow
  constructor
  · intro hok
    split_ifs at hok with hseen hlow hhigh
    split at hok
    · cases hok
    · rename_i m hm
      split_ifs at hok with hdrift
      rw [not_or, not_not, not_not] at hdrift
      obtain ⟨hm, hv⟩ := (expectedAt_eq_some_iff h).mp hm
      refine ⟨hseen, m, hm, ?_⟩
      rw [SchemaMigration.applied, hv, ← hdrift.1, ← hdrift.2]
  · rintro ⟨hseen, m, hm, rfl⟩
    obtain ⟨h₁, h₂⟩ := h.bounds hf hl hm
    have hexpected : expectedAt migrations m.version = some m :=
      (expectedAt_eq_some_iff h).mpr ⟨hm, rfl⟩
    rw [if_neg hseen]
    simp only [SchemaMigration.applied, if_neg (not_lt.mpr h₁), if_neg (not_lt.mpr h₂), gt_iff_lt,
      hexpected, ne_eq, not_true_eq_false, or_self, if_false]

/-- The versions seen after the first loop, in their order, of a history that passes it. -/
theorem known_of_checkApplied (h : Ascending migrations) (hf : migrations.head? = some first)
    (hl : migrations.getLast? = some latest)
    (hok : checkApplied digest migrations first latest seen applied = .ok seen')
    (hsorted : seen.Pairwise (· ≤ ·)) (hnodup : seen.Nodup) :
    (∀ row ∈ applied, ∃ m ∈ migrations, m.applied digest = row) ∧
      seen'.Perm (applied.map AppliedMigration.version ++ seen) ∧ seen'.Nodup ∧
      seen'.Pairwise (· ≤ ·) := by
  induction applied generalizing seen with
  | nil =>
      cases hok
      exact ⟨List.forall_mem_nil _, .refl _, hnodup, hsorted⟩
  | cons row rest ih =>
      obtain ⟨_, hrow, hrest⟩ := ok_of_bind hok
      obtain ⟨hnew, hknown⟩ := (checkRow_eq_ok_iff h hf hl).mp hrow
      have hperm := List.perm_orderedInsert (· ≤ ·) row.version seen
      obtain ⟨hall, hseen, hnodup', hsorted'⟩ := ih hrest (hsorted.orderedInsert row.version seen)
        (hperm.nodup_iff.mpr (List.nodup_cons.mpr ⟨hnew, hnodup⟩))
      refine ⟨List.forall_mem_cons.mpr ⟨hknown, hall⟩, ?_, hnodup', hsorted'⟩
      exact (hseen.trans (hperm.append_left _)).trans List.perm_middle

/-- A history of different versions that belong to migrations passes the first loop. -/
theorem checkApplied_of_known (h : Ascending migrations) (hf : migrations.head? = some first)
    (hl : migrations.getLast? = some latest)
    (hall : ∀ row ∈ applied, ∃ m ∈ migrations, m.applied digest = row)
    (hnodup : (applied.map AppliedMigration.version ++ seen).Nodup) :
    ∃ seen', checkApplied digest migrations first latest seen applied = .ok seen' := by
  induction applied generalizing seen with
  | nil => exact ⟨seen, rfl⟩
  | cons row rest ih =>
      obtain ⟨hknown, hall⟩ := List.forall_mem_cons.mp hall
      rw [List.map_cons, List.cons_append, List.nodup_cons] at hnodup
      have hnew : row.version ∉ seen := fun hmem => hnodup.1 (List.mem_append_right _ hmem)
      have hperm := List.perm_orderedInsert (· ≤ ·) row.version seen
      have hnodup' : (rest.map AppliedMigration.version ++
          seen.orderedInsert (· ≤ ·) row.version).Nodup := by
        rw [((hperm.append_left _).trans List.perm_middle).nodup_iff]
        exact List.nodup_cons.mpr hnodup
      obtain ⟨seen', hseen'⟩ := ih hall hnodup'
      exact ⟨seen', bind_of_ok ((checkRow_eq_ok_iff h hf hl).mpr ⟨hnew, hknown⟩) hseen'⟩

/-! ### The second loop -/

/-- **The second loop stays inside the list**, and passes the versions of the next migrations. -/
theorem checkGaps_spec {index : ℕ} {versions : List ℤ}
    (hlength : index + versions.length ≤ migrations.length) :
    ∃ r, checkGaps migrations index versions = some r ∧ (r = .ok () ↔
      versions = ((migrations.drop index).take versions.length).map SchemaMigration.version) := by
  induction versions generalizing index with
  | nil => exact ⟨.ok (), rfl, by simp⟩
  | cons v rest ih =>
      rw [List.length_cons] at hlength
      have hrest : index + 1 + rest.length ≤ migrations.length := by omega
      obtain ⟨r, hr, hiff⟩ := ih hrest
      have hlt : index < migrations.length := by omega
      have hget : migrations[index]? = some migrations[index] := List.getElem?_eq_getElem hlt
      have hdrop := List.drop_eq_getElem_cons hlt
      by_cases hv : v = migrations[index].version
      · refine ⟨r, ?_, ?_⟩
        · simp only [checkGaps, hget, hv, ne_eq, not_true_eq_false, if_false, Option.bind_eq_bind,
            Option.bind_some]
          exact hr
        · rw [hiff, hdrop, List.length_cons, List.take_succ_cons, List.map_cons, List.cons.injEq,
            and_iff_right hv]
      · refine ⟨.error (.migrationGap migrations[index].version v), ?_, ?_⟩
        · simp only [checkGaps, hget, hv, ne_eq, not_false_eq_true, if_true, Option.bind_eq_bind,
            Option.bind_some]
          rfl
        · rw [hdrop, List.length_cons, List.take_succ_cons, List.map_cons, List.cons.injEq]
          exact iff_of_false (fun he => by cases he) fun he => hv he.1

/-! ### Plans -/

/-- The versions of the first migrations are those seen: what is left is the rest. -/
theorem filter_unseen (h : Ascending migrations) {k : ℕ}
    (hseen : seen = (migrations.take k).map SchemaMigration.version) :
    migrations.filter (·.version ∉ seen) = migrations.drop k := by
  have hsplit := h
  rw [Ascending, ← List.take_append_drop k migrations, List.pairwise_append] at hsplit
  have htake : (migrations.take k).filter (·.version ∉ seen) = [] := by
    rw [List.filter_eq_nil_iff]
    intro m hm
    have hmem : m.version ∈ seen := hseen ▸ List.mem_map_of_mem hm
    simp [hmem]
  have hdrop : (migrations.drop k).filter (·.version ∉ seen) = migrations.drop k := by
    rw [List.filter_eq_self]
    intro m hm
    simp only [hseen, decide_eq_true_eq]
    intro hmem
    obtain ⟨m', hm', hv⟩ := List.mem_map.mp hmem
    exact absurd hv (hsplit.2.2 m' hm' m hm).ne
  calc migrations.filter (·.version ∉ seen)
      = (migrations.take k ++ migrations.drop k).filter (·.version ∉ seen) := by
        rw [List.take_append_drop]
    _ = migrations.drop k := by rw [List.filter_append, htake, hdrop, List.nil_append]

/-- A history with the versions of the first migrations is theirs. -/
theorem perm_of_versions (h : Ascending migrations) {k : ℕ}
    (hall : ∀ row ∈ applied, ∃ m ∈ migrations, m.applied digest = row)
    (hperm : (applied.map AppliedMigration.version).Perm
      ((migrations.take k).map SchemaMigration.version)) :
    applied.Perm ((migrations.take k).map (SchemaMigration.applied digest)) := by
  have htake : ((migrations.take k).map SchemaMigration.version).Nodup :=
    h.versions_nodup.sublist ((List.take_sublist k migrations).map _)
  have happlied : applied.Nodup := List.Nodup.of_map _ (hperm.nodup_iff.mpr htake)
  have hrows : ((migrations.take k).map (SchemaMigration.applied digest)).Nodup := by
    refine List.Nodup.of_map AppliedMigration.version ?_
    rw [List.map_map]
    exact htake
  refine (List.perm_ext_iff_of_nodup happlied hrows).mpr fun row => ⟨fun hrow => ?_, fun hrow => ?_⟩
  · obtain ⟨m, hm, rfl⟩ := hall row hrow
    have hmem := hperm.mem_iff.mp (List.mem_map_of_mem hrow)
    obtain ⟨m', hm', hv⟩ := List.mem_map.mp hmem
    rw [h.eq_of_version hm (List.mem_of_mem_take hm') hv.symm]
    exact List.mem_map_of_mem hm'
  · obtain ⟨m, hm, rfl⟩ := List.mem_map.mp hrow
    have hmem := hperm.mem_iff.mpr (List.mem_map_of_mem hm)
    obtain ⟨row, hrow, hv⟩ := List.mem_map.mp hmem
    obtain ⟨m', hm', rfl⟩ := hall row hrow
    rw [h.eq_of_version (List.mem_of_mem_take hm) hm' hv.symm]
    exact hrow

/-- **What the planner does**: it refuses a history that is not that of the first migrations, and
plans the rest of one that is. -/
theorem planMigrations_cases (hne : migrations ≠ []) (h : Ascending migrations)
    (applied : List AppliedMigration) :
    ((∃ e, planMigrations digest migrations applied = some (.error e)) ∧
      ¬ ∃ k, applied.Perm ((migrations.take k).map (SchemaMigration.applied digest))) ∨
    ∃ k, planMigrations digest migrations applied = some (.ok (migrations.drop k)) ∧
      applied.Perm ((migrations.take k).map (SchemaMigration.applied digest)) := by
  obtain ⟨first, hf⟩ := Option.isSome_iff_exists.mp (List.isSome_head?.mpr hne)
  have hl : migrations.getLast? = some (migrations.getLast hne) := List.getLast?_eq_some_getLast hne
  generalize migrations.getLast hne = latest at hl
  -- a history of the first migrations passes the first loop
  have hpass : ∀ {k}, applied.Perm ((migrations.take k).map (SchemaMigration.applied digest)) →
      (applied.map AppliedMigration.version).Perm
          ((migrations.take k).map SchemaMigration.version) ∧
        ∃ seen, checkApplied digest migrations first latest [] applied = .ok seen := by
    intro k hperm
    have hversions : (applied.map AppliedMigration.version).Perm
        ((migrations.take k).map SchemaMigration.version) := by
      have hmap := hperm.map AppliedMigration.version
      rw [List.map_map] at hmap
      exact hmap
    refine ⟨hversions, checkApplied_of_known h hf hl (fun row hrow => ?_) ?_⟩
    · obtain ⟨m, hm, he⟩ := List.mem_map.mp (hperm.mem_iff.mp hrow)
      exact ⟨m, List.mem_of_mem_take hm, he⟩
    · rw [List.append_nil, hversions.nodup_iff]
      exact h.versions_nodup.sublist ((List.take_sublist k migrations).map _)
  cases hok : checkApplied digest migrations first latest [] applied with
  | error e =>
      refine .inl ⟨⟨e, by simp [planMigrations, hf, hl, hok]⟩, fun ⟨k, hperm⟩ => ?_⟩
      obtain ⟨-, seen, hseen⟩ := hpass hperm
      cases hok.symm.trans hseen
  | ok seen =>
      obtain ⟨hall, hperm, hnodup, hsorted⟩ := known_of_checkApplied h hf hl hok .nil .nil
      rw [List.append_nil] at hperm
      have hlength : 0 + seen.length ≤ migrations.length := by
        have hsub : seen ⊆ migrations.map SchemaMigration.version := by
          intro v hv
          obtain ⟨row, hrow, rfl⟩ := List.mem_map.mp (hperm.mem_iff.mp hv)
          obtain ⟨m, hm, rfl⟩ := hall row hrow
          exact List.mem_map_of_mem hm
        have hle := (hnodup.subperm hsub).length_le
        rwa [List.length_map, ← Nat.zero_add seen.length] at hle
      obtain ⟨r, hr, hiff⟩ := checkGaps_spec hlength
      rw [List.drop_zero] at hiff
      have hplan : planMigrations digest migrations applied = some (r.map fun _ =>
          migrations.filter (·.version ∉ seen)) := by
        simp only [planMigrations, hf, hl, hok, hr, Option.bind_eq_bind, Option.bind_some]
        cases r <;> rfl
      cases r with
      | error e =>
          refine .inl ⟨⟨e, hplan⟩, fun ⟨k, hk⟩ => ?_⟩
          -- the versions seen are those of the first migrations, in the same order
          have hseen : seen = (migrations.take k).map SchemaMigration.version := by
            refine (hperm.trans (hpass hk).1).eq_of_pairwise
              (fun _ _ _ _ h₁ h₂ => le_antisymm h₁ h₂) hsorted ?_
            exact List.pairwise_map.mpr ((h.sublist (List.take_sublist k migrations)).imp le_of_lt)
          have hsame : migrations.take seen.length = migrations.take k := by
            rw [hseen, List.length_map, List.length_take, List.take_eq_take_iff]
            omega
          have hok' := hiff.mpr (by rw [hsame, ← hseen])
          cases hok'
      | ok _ =>
          have hseen := hiff.mp rfl
          refine .inr ⟨seen.length, ?_, perm_of_versions h hall (hseen ▸ hperm.symm)⟩
          rw [hplan, ← filter_unseen h hseen]
          rfl

/-- **The planner accepts exactly the prefixes.**  It never leaves the list; what it plans is the
rest; and with the planned rows added there is nothing left to plan. -/
theorem planned_iff (digest : List Byte → List Byte) (hne : migrations ≠ [])
    (h : Ascending migrations) (applied : List AppliedMigration) :
    (∀ p, planMigrations digest migrations applied = some (.ok p) ↔
      ∃ k, applied.Perm ((migrations.take k).map (SchemaMigration.applied digest)) ∧
        p = migrations.drop k) ∧
    (planMigrations digest migrations applied).isSome ∧
    ∀ p, planMigrations digest migrations applied = some (.ok p) →
      planMigrations digest migrations (applied ++ p.map (SchemaMigration.applied digest)) =
        some (.ok []) := by
  -- for every history, and then for the one with the planned rows
  have hiff : ∀ (applied : List AppliedMigration) (p : List SchemaMigration),
      planMigrations digest migrations applied = some (.ok p) ↔
        ∃ k, applied.Perm ((migrations.take k).map (SchemaMigration.applied digest)) ∧
          p = migrations.drop k := by
    intro applied p
    rcases planMigrations_cases hne h applied with ⟨⟨e, he⟩, hnot⟩ | ⟨k, hk, hperm⟩
    · rw [he]
      exact iff_of_false (fun hok => by cases hok) fun ⟨k, hperm, _⟩ => hnot ⟨k, hperm⟩
    · rw [hk]
      refine ⟨fun hok => by cases hok; exact ⟨k, hperm, rfl⟩, ?_⟩
      rintro ⟨k', hperm', rfl⟩
      have hlength := (hperm.symm.trans hperm').length_eq
      rw [List.length_map, List.length_map, List.length_take, List.length_take] at hlength
      have hdrop : migrations.drop k = migrations.drop k' := by
        rw [List.drop_eq_drop_iff]
        omega
      rw [hdrop]
  refine ⟨hiff applied, ?_, fun p hp => ?_⟩
  · rcases planMigrations_cases hne h applied with ⟨⟨e, he⟩, -⟩ | ⟨k, hk, -⟩
    · rw [he]; rfl
    · rw [hk]; rfl
  · obtain ⟨k, hperm, rfl⟩ := (hiff applied p).mp hp
    refine (hiff _ _).mpr ⟨migrations.length, ?_, (List.drop_length).symm⟩
    rw [List.take_length]
    refine (hperm.append_right _).trans ?_
    rw [← List.map_append, List.take_append_drop]

end Plan

namespace Sample

/-- Two migrations. -/
def twoMigrations : List SchemaMigration := [⟨4, "first", "first"⟩, ⟨5, "second", "second"⟩]

end Sample

/-- The second of two migrations is planned after the first. -/
theorem planned_of_two :
    planMigrations id Sample.twoMigrations
        [SchemaMigration.applied id ⟨4, "first", "first"⟩] =
      some (.ok [⟨5, "second", "second"⟩]) := by
  have hascending : Ascending Sample.twoMigrations := by
    unfold Ascending Sample.twoMigrations
    decide
  refine ((planned_iff id (by decide) hascending _).1 _).mpr ⟨1, ?_, rfl⟩
  exact .refl _

end Cockroach
end Pulpitum
