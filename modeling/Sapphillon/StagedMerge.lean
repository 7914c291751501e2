import Sapphillon.MergeLaws
import Sapphillon.MergeShape

/-! Merging in stages. A list that is merged before it meets other grants leaves the same merged
list as one that is not, exactly when its own merge loses nothing. -/
namespace Sapphillon.StagedMerge
open CheckUrl Coverage Grouping Permission Proto MergeLaws MergeShape

variable (parse : String → Option Url)

/-- `AllowAll` is there, or each entry of the resource kinds that another one equals in coverage
lies strictly below some entry. -/
def Lossless (g : List Permission) : Prop :=
  HasAllowAll g ∨ ∀ p ∈ g, IsResource p.kind →
    (∃ q ∈ g, q ≠ p ∧ Covers parse q p ∧ Covers parse p q) →
      ∃ q ∈ g, Covers parse q p ∧ ¬ Covers parse p q

instance (g : List Permission) : Decidable (Lossless parse g) :=
  inferInstanceAs (Decidable (_ ∨ ∀ p ∈ g, _))

variable {parse} {a b g : List Permission}

theorem hasAllowAll_append : HasAllowAll (a ++ b) ↔ HasAllowAll a ∨ HasAllowAll b := by
  simp only [HasAllowAll, List.mem_append, or_and_right, exists_or]

/-- What an entry of a lossless list covers, an undominated entry of it covers. -/
theorem exists_undominated (h : ¬ HasAllowAll g) (hg : Lossless parse g) {p q : Permission}
    (hp : IsResource p.kind) (hq : q ∈ g) (hc : Covers parse q p) :
    ∃ m ∈ g, Undominated (Covers parse) g m ∧ Covers parse m p := by
  have hclass := undominated_covers_iff (R := Covers parse) g (C := fun p => IsResource p.kind)
    fun p hp x hc => isResource_iff_of_covers parse h hp hc
  exact hclass.mpr (hg.resolve_left h) p hp ⟨q, hq, hc⟩

/-- Among other grants a lossless list dominates the same entries whether it is merged or
not. -/
theorem undominated_staged (h : ¬ HasAllowAll g) (hg : Lossless parse g) {p : Permission}
    (hp : IsResource p.kind) :
    Undominated (Covers parse) (a ++ ((Permissions.mk g).merge parse).permissions ++ b) p ↔
      Undominated (Covers parse) (a ++ g ++ b) p := by
  constructor
  · intro hu q hq hne hc
    simp only [List.mem_append] at hq
    obtain (hq | hq) | hq := hq
    · exact hu q (by simp [hq]) hne hc
    · obtain ⟨m, hm, hmax, hmc⟩ := exists_undominated h hg hp hq hc
      have hmp : m ≠ p := fun he => hmax q hq (he ▸ hne) (he ▸ hc)
      have hmk : IsResource m.kind := (isResource_iff_of_covers parse h hm hmc).mpr hp
      have hmerged : m ∈ ((Permissions.mk g).merge parse).permissions :=
        (mem_merge parse h m).mpr ⟨hm, hmk, hmax⟩
      exact hu m (by simp [hmerged]) hmp hmc
    · exact hu q (by simp [hq]) hne hc
  · intro hu
    refine hu.mono fun q hq => ?_
    simp only [List.mem_append] at hq ⊢
    exact hq.imp_left fun hq => hq.imp_right fun hq => ((mem_merge parse h q).mp hq).1

theorem group_append {α κ : Type*} [DecidableEq κ] {f : α → κ} (k : κ) (l l' : List α) :
    group f k (l ++ l') = group f k l ++ group f k l' := List.filter_append l l'

/-- The survivors of one kind, as a test of the entries of this kind. -/
theorem group_survivors {k : PermissionType} {l m : List Permission}
    (hkeep : ∀ p, p.kind = k → (Undominated (Covers parse) l p ↔ Undominated (Covers parse) m p)) :
    group Permission.kind k (survivors (Covers parse) l) =
      (group Permission.kind k l).filter fun p =>
        m.all fun q => q == p || !decide (Covers parse q p) := by
  rw [survivors, group, group, List.filter_comm]
  refine List.filter_congr fun p hp => ?_
  rw [Bool.eq_iff_iff, all_iff_undominated, all_iff_undominated]
  exact hkeep p (by simpa using (List.mem_filter.mp hp).2)

/-- A lossless list may be merged before it meets other grants. -/
theorem merge_staged (hg : Lossless parse g) (a b : List Permission) :
    (Permissions.mk (a ++ ((Permissions.mk g).merge parse).permissions ++ b)).merge parse =
      (Permissions.mk (a ++ g ++ b)).merge parse := by
  have hallow : HasAllowAll (a ++ ((Permissions.mk g).merge parse).permissions ++ b) ↔
      HasAllowAll (a ++ g ++ b) := by
    simp only [hasAllowAll_append, hasAllowAll_merge_iff]
  by_cases h : HasAllowAll (a ++ g ++ b)
  · rw [merge_allowAll parse h, merge_allowAll parse (hallow.mpr h)]
  have h' : ¬ HasAllowAll (a ++ ((Permissions.mk g).merge parse).permissions ++ b) :=
    mt hallow.mp h
  have hno : ¬ HasAllowAll g := fun hm => h (by simp [hasAllowAll_append, hm])
  refine congrArg Permissions.mk ?_
  have hkinds : regroup Permission.kind mergeKinds
      (survivors (Covers parse) (a ++ ((Permissions.mk g).merge parse).permissions ++ b)) =
      regroup Permission.kind mergeKinds (survivors (Covers parse) (a ++ g ++ b)) := by
    refine List.flatMap_congr fun k hk => ?_
    have hres (p : Permission) (hp : p.kind = k) : IsResource p.kind :=
      hp ▸ mem_mergeKinds.mp hk
    -- A survivor of the whole list is a survivor of its own part.
    have hpart : (group Permission.kind k (survivors (Covers parse) g)).filter
        (fun p => (a ++ g ++ b).all fun q => q == p || !decide (Covers parse q p)) =
        (group Permission.kind k g).filter
          fun p => (a ++ g ++ b).all fun q => q == p || !decide (Covers parse q p) := by
      rw [group_survivors fun _ _ => Iff.rfl, List.filter_filter]
      refine List.filter_congr fun p _ => ?_
      rw [Bool.eq_iff_iff, Bool.and_eq_true, all_iff_undominated, all_iff_undominated]
      exact and_iff_left_of_imp fun hu => hu.mono fun q hq => by simp [hq]
    rw [group_survivors fun p hp => undominated_staged hno hg (hres p hp),
      group_survivors fun _ _ => Iff.rfl]
    simp only [group_append, List.filter_append]
    rw [merge_permissions parse hno, group_regroup mergeKinds_nodup hk, hpart]
  exact (merge_permissions parse h').trans (hkinds.trans (merge_permissions parse h).symm)

/-- The entry that shows a loss: it is in the list, and merged away with its equals. -/
theorem lost_entry (hg : ¬ Lossless parse g) :
    ¬ HasAllowAll g ∧ ∃ p ∈ g, IsResource p.kind ∧
      ¬ Undominated (Covers parse) g p ∧
      Undominated (Covers parse) ((Permissions.mk g).merge parse).permissions p := by
  obtain ⟨hno, hcond⟩ := not_or.mp hg
  push Not at hcond
  obtain ⟨p, hp, hk, ⟨q, hq, hne, hqp, _⟩, hmax⟩ := hcond
  refine ⟨hno, p, hp, hk, fun hu => hu q hq hne hqp, fun m hm hmp hc => ?_⟩
  obtain ⟨hmg, _, hmu⟩ := (mem_merge parse hno m).mp hm
  exact hmu p hp hmp.symm (hmax m hmg hc)

variable (parse) in
/-- Merging a list before it meets other grants never changes the merged result exactly when
the list holds `AllowAll`, or each of its entries of the resource kinds with an equal in coverage
lies strictly below some entry. -/
theorem merge_staged_iff (g : List Permission) :
    (∀ a b, (Permissions.mk (a ++ ((Permissions.mk g).merge parse).permissions ++ b)).merge parse =
      (Permissions.mk (a ++ g ++ b)).merge parse) ↔ Lossless parse g := by
  constructor
  · intro hall
    by_contra hg
    obtain ⟨hno, p, hp, hk, hdominated, hu⟩ := lost_entry hg
    have hpk : p.kind ≠ .allowAll := fun he => hno ⟨p, hp, he⟩
    have hsingle : ¬ HasAllowAll [p] := by simpa [HasAllowAll] using hpk
    have hmergedNo : ¬ HasAllowAll ((Permissions.mk g).merge parse).permissions :=
      mt (hasAllowAll_merge_iff parse _).mp hno
    have hleft : ¬ HasAllowAll ([] ++ ((Permissions.mk g).merge parse).permissions ++ [p]) := by
      rw [List.nil_append, hasAllowAll_append]
      exact not_or.mpr ⟨hmergedNo, hsingle⟩
    have hright : ¬ HasAllowAll ([] ++ g ++ [p]) := by
      rw [List.nil_append, hasAllowAll_append]
      exact not_or.mpr ⟨hno, hsingle⟩
    have hmem : p ∈ ((Permissions.mk
        ([] ++ ((Permissions.mk g).merge parse).permissions ++ [p])).merge parse).permissions := by
      refine (mem_merge parse hleft p).mpr ⟨by simp, hk, fun q hq hne => ?_⟩
      have hq' : q ∈ ((Permissions.mk g).merge parse).permissions := by
        simpa [hne] using hq
      exact hu q hq' hne
    rw [hall [] [p]] at hmem
    exact hdominated (((mem_merge parse hright p).mp hmem).2.2.mono fun q hq => by simp [hq])
  · intro hg a b
    exact merge_staged hg a b

/-! ### Stored grants -/

variable (parse) in
/-- An entry of the grants with its list merged. -/
def premerged (pfp : PluginFunctionPermissions) : PluginFunctionPermissions :=
  { pfp with permissions := pfp.permissions.merge parse }

variable (parse) in
/-- An entry as it stands, or merged in advance where that loses nothing. -/
def StoredFor (stored pfp : PluginFunctionPermissions) : Prop :=
  stored = pfp ∨ Lossless parse pfp.permissions.permissions ∧ stored = premerged parse pfp

theorem recorded_cons (pfp : PluginFunctionPermissions) (allowed : List PluginFunctionPermissions)
    (ids : List String) :
    recorded (pfp :: allowed) ids =
      (if ids.contains pfp.pluginFunctionId then pfp.permissions.permissions else []) ++
        recorded allowed ids := by
  simp only [recorded, List.filter_cons]
  split <;> simp

/-- One entry merged in advance, behind other grants and before the rest. -/
theorem merge_stored {stored pfp : PluginFunctionPermissions} (h : StoredFor parse stored pfp)
    (allowed : List PluginFunctionPermissions) (ids : List String) (a : List Permission) :
    (Permissions.mk (a ++ recorded (stored :: allowed) ids)).merge parse =
      (Permissions.mk (a ++ recorded (pfp :: allowed) ids)).merge parse := by
  obtain rfl | ⟨hpfp, rfl⟩ := h
  · rfl
  · rw [recorded_cons, recorded_cons, premerged]
    by_cases hid : ids.contains pfp.pluginFunctionId = true
    · rw [if_pos hid, if_pos hid, ← List.append_assoc, ← List.append_assoc]
      exact merge_staged hpfp a (recorded allowed ids)
    · rw [if_neg hid, if_neg hid]

theorem merge_recorded {stored allowed : List PluginFunctionPermissions}
    (h : List.Forall₂ (StoredFor parse) stored allowed) (ids : List String)
    (a : List Permission) :
    (Permissions.mk (a ++ recorded stored ids)).merge parse =
      (Permissions.mk (a ++ recorded allowed ids)).merge parse := by
  induction h generalizing a with
  | nil => rfl
  | @cons entry pfp stored allowed hentry _ ih =>
    calc (Permissions.mk (a ++ recorded (entry :: stored) ids)).merge parse
      _ = (Permissions.mk (a ++ recorded (pfp :: stored) ids)).merge parse :=
        merge_stored hentry stored ids a
      _ = (Permissions.mk (a ++ recorded (pfp :: allowed) ids)).merge parse := by
        rw [recorded_cons, recorded_cons, ← List.append_assoc, ← List.append_assoc]
        exact ih _

variable (parse) in
/-- Grants may be stored merged wherever that loses nothing: every lookup gives the list it
would give among the grants as they were recorded. -/
theorem findAllowedPermissions_stored (stored allowed : List PluginFunctionPermissions)
    (h : List.Forall₂ (StoredFor parse) stored allowed) (ids : List String) :
    findAllowedPermissions parse stored ids = findAllowedPermissions parse allowed ids :=
  merge_recorded h ids []

/-- One function's grants are stored merged, the other's cannot be. -/
theorem findAllowedPermissions_stored_read :
    findAllowedPermissions (fun _ => none)
        [⟨"read", ⟨[Permission.new .filesystemRead "/"]⟩⟩,
          ⟨"list", ⟨[Permission.new .filesystemRead "/a", Permission.new .filesystemRead "/a/"]⟩⟩]
        ["read", "list"] =
      findAllowedPermissions (fun _ => none)
        [⟨"read", ⟨[Permission.new .filesystemRead "/a", Permission.new .filesystemRead "/",
            Permission.new .filesystemRead "/a/"]⟩⟩,
          ⟨"list", ⟨[Permission.new .filesystemRead "/a", Permission.new .filesystemRead "/a/"]⟩⟩]
        ["read", "list"] :=
  findAllowedPermissions_stored (fun _ => none) _ _
    (.cons (Or.inr (by decide)) (.cons (Or.inl rfl) .nil)) ["read", "list"]

end Sapphillon.StagedMerge
