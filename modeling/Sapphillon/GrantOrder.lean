import Sapphillon.Capabilities
import Sapphillon.Permission

/-! What becomes of the grants when they are listed in another order. A merged list may come
out permuted; the path map made of it does not, since paths that count as one key cover each
other and only one spelling of them is left in a kind. -/
namespace Sapphillon.GrantOrder
open CheckPath CheckUrl Coverage Grouping Permission Proto StdPath ExtPlugin Capabilities

/-! ### The recorded entries -/

/-- Two records of one function with the same entries. -/
structure SameRecord (a b : PluginFunctionPermissions) : Prop where
  id : a.pluginFunctionId = b.pluginFunctionId
  entries : a.permissions.permissions.Perm b.permissions.permissions

/-- The same grants in another order: the records permuted, and the lists in them. -/
def Reordered (allowed allowed' : List PluginFunctionPermissions) : Prop :=
  ∃ records, allowed.Perm records ∧ List.Forall₂ SameRecord records allowed'

theorem recorded_forall₂ {allowed allowed' : List PluginFunctionPermissions}
    (h : List.Forall₂ SameRecord allowed allowed') (ids : List String) :
    (recorded allowed ids).Perm (recorded allowed' ids) := by
  induction h with
  | nil => exact List.Perm.refl _
  | cons hab _ ih =>
    unfold recorded at ih ⊢
    rw [List.filter_cons, List.filter_cons, hab.id]
    split
    · exact hab.entries.append ih
    · exact ih

theorem recorded_perm {allowed allowed' : List PluginFunctionPermissions} {ids ids' : List String}
    (h : Reordered allowed allowed') (hids : ids.Perm ids') :
    (recorded allowed ids).Perm (recorded allowed' ids') := by
  obtain ⟨records, hperm, hrecords⟩ := h
  have htarget : recorded records ids = recorded records ids' := by
    have hcontains (id : String) : ids.contains id = ids'.contains id := hids.contains_eq
    simp only [recorded, hcontains]
  calc
    (recorded allowed ids).Perm (recorded records ids) := (hperm.filter _).flatMap_right _
    _ = recorded records ids' := htarget
    (recorded records ids').Perm (recorded allowed' ids') := recorded_forall₂ hrecords ids'

variable (parse : String → Option Url)

/-! ### The merged list -/

theorem hasAllowAll_perm {l l' : List Permission} (h : l.Perm l') :
    HasAllowAll l ↔ HasAllowAll l' := by
  simp only [HasAllowAll, h.mem_iff]

theorem merge_perm {g g' : Permissions} (h : g.permissions.Perm g'.permissions) :
    (g.merge parse).permissions.Perm (g'.merge parse).permissions := by
  by_cases hall : HasAllowAll g.permissions
  · rw [merge_allowAll parse hall, merge_allowAll parse ((hasAllowAll_perm h).mp hall)]
  · have hall' := (hasAllowAll_perm h).not.mp hall
    rw [merge_permissions parse hall, merge_permissions parse hall']
    exact regroup_perm mergeKinds (survivors_perm h)

/-! ### The path map -/

/-- Texts that count as one key of the path map cover each other. -/
theorem pathCovers_of_rankPath {a b : String}
    (h : rankPath (PathBuf.ofString a) = rankPath (PathBuf.ofString b)) :
    pathCovers a b = true := by
  have hnormal : CheckPath.normalize (PathBuf.ofString b) =
      CheckPath.normalize (PathBuf.ofString a) := by
    rw [CheckPath.normalize, ← components_of_rankPath h, CheckPath.normalize]
  have hrefl := pathCovers_refl a
  rwa [pathCovers, isAncestorOrEqual, ← hnormal] at hrefl ⊢

/-- Among the survivors of one kind, grants whose paths count as one key open the same path. -/
theorem grantPath_unique {g : List Permission} (h : ¬ HasAllowAll g) {k : PermissionType}
    {x y : Permission} (hx : x ∈ group Permission.kind k (survivors (Covers parse) g))
    (hy : y ∈ group Permission.kind k (survivors (Covers parse) g)) {p q : PathBuf}
    (hp : grantPath x = some p) (hq : grantPath y = some q) (hrank : rankPath p = rankPath q) :
    p = q := by
  obtain ⟨hx, hxk⟩ := mem_group.mp hx
  obtain ⟨hy, hyk⟩ := mem_group.mp hy
  obtain ⟨hxg, _⟩ := mem_survivors.mp hx
  obtain ⟨_, hyu⟩ := mem_survivors.mp hy
  have hallow : x.kind ≠ .allowAll := fun he => h ⟨x, hxg, he⟩
  obtain ⟨he, _⟩ | ⟨hkind, rfl⟩ := grantPath_eq_some.mp hp
  · exact absurd he hallow
  obtain ⟨he, _⟩ | ⟨_, rfl⟩ := grantPath_eq_some.mp hq
  · exact absurd ((hxk.trans hyk.symm).trans he) hallow
  have hkinds : x.kind = y.kind := hxk.trans hyk.symm
  have hcover : Covers parse x y :=
    (covers_path parse hallow (hkinds ▸ hkind)).mpr ⟨hkinds, pathCovers_of_rankPath hrank⟩
  by_cases hxy : x = y
  · rw [hxy]
  · exact absurd hcover (hyu x hxg hxy)

theorem grantPaths_append (l l' : List Permission) :
    grantPaths (l ++ l') = grantPaths l ++ grantPaths l' := by
  simp [grantPaths]

theorem grantPaths_perm {l l' : List Permission} (h : l.Perm l') :
    (grantPaths l).Perm (grantPaths l') := (h.filterMap _).map _

/-- The survivors of one kind fill the map alike in either order. -/
theorem insertAll_group_perm {g g' : List Permission} (h : ¬ HasAllowAll g) (hperm : g.Perm g')
    (k : PermissionType) (m : PathMap) :
    m.insertAll (grantPaths (group Permission.kind k (survivors (Covers parse) g))) =
      m.insertAll (grantPaths (group Permission.kind k (survivors (Covers parse) g'))) := by
  refine OrderedMap.insertAll_perm (grantPaths_perm (group_perm k (survivors_perm hperm))) ?_ m
  intro a ha b hb hrank
  obtain ⟨hae, x, hx, hxa⟩ := mem_grantPaths.mp ha
  obtain ⟨hbe, y, hy, hyb⟩ := mem_grantPaths.mp hb
  have hkey : a.1 = b.1 := grantPath_unique parse h hx hy hxa hyb hrank
  exact Prod.ext hkey (hae.symm.trans (hkey.trans hbe))

theorem insertAll_regroup_perm {g g' : List Permission} (h : ¬ HasAllowAll g)
    (hperm : g.Perm g') (keys : List PermissionType) (m : PathMap) :
    m.insertAll (grantPaths (regroup Permission.kind keys (survivors (Covers parse) g))) =
      m.insertAll (grantPaths (regroup Permission.kind keys (survivors (Covers parse) g'))) := by
  induction keys generalizing m with
  | nil => rfl
  | cons k keys ih =>
    unfold regroup at ih ⊢
    rw [List.flatMap_cons, List.flatMap_cons, grantPaths_append, grantPaths_append,
      OrderedMap.insertAll_append, OrderedMap.insertAll_append,
      insertAll_group_perm parse h hperm k m, ih]

theorem merge_paths_perm {g g' : Permissions} (h : g.permissions.Perm g'.permissions) :
    (permissionsToWasi (g.merge parse).permissions).1 =
      (permissionsToWasi (g'.merge parse).permissions).1 := by
  by_cases hall : HasAllowAll g.permissions
  · rw [merge_allowAll parse hall, merge_allowAll parse ((hasAllowAll_perm h).mp hall)]
  · have hall' := (hasAllowAll_perm h).not.mp hall
    rw [permissionsToWasi_paths, permissionsToWasi_paths, merge_permissions parse hall,
      merge_permissions parse hall']
    exact insertAll_regroup_perm parse hall h mergeKinds OrderedMap.empty

/-! ### The decisions -/

/-- Two lists of grants that no check and no manifest tells apart, but for the order of the
entries and of the hosts. -/
structure SameGrants (g g' : Permissions) : Prop where
  entries : g.permissions.Perm g'.permissions
  granted : ∀ required,
    checkPermission parse g required = .ok ↔ checkPermission parse g' required = .ok
  required : ∀ granted,
    checkPermission parse granted g = .ok ↔ checkPermission parse granted g' = .ok
  types : ∀ schema, checkFunctionPermissions schema g.permissions = .ok () ↔
    checkFunctionPermissions schema g'.permissions = .ok ()
  paths : (permissionsToWasi g.permissions).1 = (permissionsToWasi g'.permissions).1
  hosts : (permissionsToWasi g.permissions).2.Perm (permissionsToWasi g'.permissions).2

theorem sameGrants_of_perm {g g' : Permissions} (h : g.permissions.Perm g'.permissions)
    (hpaths : (permissionsToWasi g.permissions).1 = (permissionsToWasi g'.permissions).1) :
    SameGrants parse g g' := by
  refine ⟨h, fun required => ?_, fun granted => ?_, fun schema => ?_, hpaths, ?_⟩
  · simp only [checkPermission_ok_iff, CoversAll, h.mem_iff]
  · simp only [checkPermission_ok_iff, CoversAll, h.mem_iff]
  · simp only [checkFunctionPermissions_ok_iff, h.mem_iff]
  · rw [permissionsToWasi_hosts, permissionsToWasi_hosts]
    exact h.filterMap _

/-- Grants recorded in another order, and asked for by the targets in another order, are the
same grants. -/
theorem grant_order_irrelevant {allowed allowed' : List PluginFunctionPermissions}
    {ids ids' : List String} (h : Reordered allowed allowed') (hids : ids.Perm ids') :
    SameGrants parse (findAllowedPermissions parse allowed ids)
      (findAllowedPermissions parse allowed' ids') := by
  have hrecorded : (recorded allowed ids).Perm (recorded allowed' ids') := recorded_perm h hids
  exact sameGrants_of_perm parse (merge_perm parse hrecorded) (merge_paths_perm parse hrecorded)

theorem grant_order_irrelevant_swap :
    SameGrants (fun _ => none)
      (findAllowedPermissions (fun _ => none)
        [⟨"read", ⟨[Permission.new .filesystemRead "/a", Permission.new .filesystemWrite "/a/"]⟩⟩,
          ⟨"open", ⟨[Permission.new .filesystemRead "/a/b"]⟩⟩] ["read", "open"])
      (findAllowedPermissions (fun _ => none)
        [⟨"open", ⟨[Permission.new .filesystemRead "/a/b"]⟩⟩,
          ⟨"read", ⟨[Permission.new .filesystemWrite "/a/", Permission.new .filesystemRead "/a"]⟩⟩]
        ["open", "read"]) :=
  grant_order_irrelevant (fun _ => none)
    ⟨_, List.Perm.swap _ _ _, .cons ⟨rfl, List.Perm.refl _⟩
      (.cons ⟨rfl, List.Perm.swap _ _ _⟩ .nil)⟩ (List.Perm.swap _ _ _)

end Sapphillon.GrantOrder
