import Sapphillon.Permission

/-! The shape of a merged list. Without `AllowAll` it is the list's survivors regrouped by kind,
so a second merge changes nothing. An entry is compared with the differently spelled
ones only, so its exact repetitions stay. -/
namespace Sapphillon.MergeShape
open CheckUrl Coverage Grouping Permission Proto

variable (parse : String → Option Url)

theorem mergeKinds_nodup : mergeKinds.Nodup := by decide

/-- The entries of a merged list do not dominate each other. -/
theorem undominated_of_mem_merge {g : Permissions} (h : ¬ HasAllowAll g.permissions)
    {p : Permission} (hp : p ∈ (g.merge parse).permissions) :
    Undominated (Covers parse) (g.merge parse).permissions p := by
  obtain ⟨_, _, hu⟩ := (mem_merge parse h p).mp hp
  exact hu.mono fun q hq => ((mem_merge parse h q).mp hq).1

/-- Merging a merged list gives the same list. -/
theorem merge_idempotent (g : Permissions) : (g.merge parse).merge parse = g.merge parse := by
  by_cases h : HasAllowAll g.permissions
  · have hm := (hasAllowAll_merge_iff parse g).mpr h
    rw [merge_allowAll parse hm, merge_allowAll parse h]
  · have hm := (hasAllowAll_merge_iff parse g).not.mpr h
    have hsurvivors : survivors (Covers parse) (g.merge parse).permissions =
        (g.merge parse).permissions :=
      survivors_eq_self fun p hp => undominated_of_mem_merge parse h hp
    have hlist : ((g.merge parse).merge parse).permissions = (g.merge parse).permissions := by
      rw [merge_permissions parse hm, hsurvivors, merge_permissions parse h]
      exact regroup_idem mergeKinds_nodup _
    exact congrArg Permissions.mk hlist

/-! ### Repeated entries -/

/-- No entry is covered by an entry of its kind at another position, and none occurs twice. -/
structure Minimal (l : List Permission) : Prop where
  uncovered : l.Pairwise fun p q => p.kind = q.kind → ¬ Covers parse p q ∧ ¬ Covers parse q p
  nodup : l.Nodup

/-- Where different entries do not dominate each other only a repetition can be covered. -/
theorem minimal_iff_nodup {l : List Permission}
    (h : ∀ p ∈ l, Undominated (Covers parse) l p) : Minimal parse l ↔ l.Nodup := by
  constructor
  · exact Minimal.nodup
  · intro hnodup
    refine ⟨?_, hnodup⟩
    refine List.Pairwise.imp_of_mem ?_ hnodup
    intro p q hp hq hne _
    exact ⟨h q hq p hp hne, h p hp q hq hne.symm⟩

/-- A merged list repeats an entry as often as the list does. -/
theorem count_merge {g : Permissions} (h : ¬ HasAllowAll g.permissions) {p : Permission}
    (hp : p ∈ (g.merge parse).permissions) :
    (g.merge parse).permissions.count p = g.permissions.count p := by
  obtain ⟨_, hk, hu⟩ := (mem_merge parse h p).mp hp
  rw [merge_permissions parse h, count_regroup mergeKinds_nodup (mem_mergeKinds.mpr hk),
    count_survivors hu]

theorem merge_nodup_iff {g : Permissions} (h : ¬ HasAllowAll g.permissions) :
    (g.merge parse).permissions.Nodup ↔
      ∀ p ∈ (g.merge parse).permissions, g.permissions.count p = 1 := by
  constructor
  · intro hnodup p hp
    rw [← count_merge parse h hp]
    exact List.count_eq_one_of_mem hnodup hp
  · intro hone
    refine List.nodup_iff_count_le_one.mpr fun p => ?_
    by_cases hp : p ∈ (g.merge parse).permissions
    · rw [count_merge parse h hp, hone p hp]
    · rw [List.count_eq_zero_of_not_mem hp]
      exact Nat.zero_le 1

/-- A merged list is minimal exactly when the list holds `AllowAll`, or each entry of the
resource kinds that no differently spelled entry of its kind covers occurs once. -/
theorem merge_minimal_iff (g : Permissions) :
    Minimal parse (g.merge parse).permissions ↔
      HasAllowAll g.permissions ∨
        ∀ p ∈ g.permissions, IsResource p.kind →
          (∀ q ∈ g.permissions, q.kind = p.kind → q.resource ≠ p.resource → ¬ Covers parse q p) →
          g.permissions.count p = 1 := by
  by_cases h : HasAllowAll g.permissions
  · refine iff_of_true ?_ (Or.inl h)
    rw [merge_allowAll parse h]
    exact ⟨List.pairwise_singleton _ _, List.nodup_singleton _⟩
  · rw [or_iff_right h, minimal_iff_nodup parse fun p hp => undominated_of_mem_merge parse h hp,
      merge_nodup_iff parse h]
    refine forall_congr' fun p => ?_
    rw [mem_merge parse h, and_imp, and_imp]
    refine imp_congr_right fun _ => imp_congr_right fun hk => ?_
    rw [undominated_iff parse h hk]

/-- Two equal grants stay two. -/
theorem merge_keeps_repetitions :
    ¬ Minimal (fun _ => none) (Permissions.merge (fun _ => none)
      ⟨[Permission.new .filesystemRead "/a", Permission.new .filesystemRead "/a"]⟩).permissions := by
  intro h
  exact absurd h.nodup (by decide)

end Sapphillon.MergeShape
