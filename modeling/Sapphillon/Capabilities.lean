import Sapphillon.ExtPlugin

/-! What a list of grants becomes in a manifest: each grant contributes at most one path
and at most one host, and nothing else is in the maps. -/
namespace Sapphillon.Capabilities
open LexicalPath PathText StdPath Proto ExtPlugin

/-- The path a grant opens. -/
def grantPath (perm : Permission) : Option PathBuf :=
  match perm.kind with
  | .allowAll => some (PathBuf.ofString "/")
  | .filesystemRead | .filesystemWrite => some (PathBuf.ofString perm.resource)
  | .networkAccess | .unspecified => none

/-- The host a grant opens. -/
def grantHost (perm : Permission) : Option String :=
  match perm.kind with
  | .allowAll => some "*"
  | .networkAccess => some perm.resource
  | .filesystemRead | .filesystemWrite | .unspecified => none

theorem grantPath_eq_some {perm : Permission} {path : PathBuf} :
    grantPath perm = some path ↔
      perm.kind = .allowAll ∧ path = PathBuf.ofString "/" ∨
      (perm.kind = .filesystemRead ∨ perm.kind = .filesystemWrite) ∧
        path = PathBuf.ofString perm.resource := by
  unfold grantPath
  cases perm.kind with
  | unspecified => simp
  | allowAll => simp [eq_comm]
  | filesystemRead => simp [eq_comm]
  | filesystemWrite => simp [eq_comm]
  | networkAccess => simp

theorem grantHost_eq_some {perm : Permission} {host : String} :
    grantHost perm = some host ↔
      perm.kind = .allowAll ∧ host = "*" ∨ perm.kind = .networkAccess ∧ host = perm.resource := by
  unfold grantHost
  cases perm.kind with
  | unspecified => simp
  | allowAll => simp [eq_comm]
  | filesystemRead => simp
  | filesystemWrite => simp
  | networkAccess => simp [eq_comm]

/-- The insertions of a list of grants: a path is mapped to itself. -/
def grantPaths (permissions : List Permission) : List (PathBuf × PathBuf) :=
  (permissions.filterMap grantPath).map fun p => (p, p)

theorem foldl_wasiStep (permissions : List Permission) (acc : PathMap × List String) :
    permissions.foldl wasiStep acc =
      (acc.1.insertAll (grantPaths permissions), acc.2 ++ permissions.filterMap grantHost) := by
  induction permissions generalizing acc with
  | nil => simp [grantPaths, OrderedMap.insertAll]
  | cons perm permissions ih =>
    rw [List.foldl_cons, ih]
    rcases hk : perm.kind <;>
      simp [wasiStep, grantPaths, grantPath, grantHost, hk, OrderedMap.insertAll]

theorem permissionsToWasi_paths (permissions : List Permission) :
    (permissionsToWasi permissions).1 = OrderedMap.empty.insertAll (grantPaths permissions) := by
  rw [permissionsToWasi, foldl_wasiStep]

theorem permissionsToWasi_hosts (permissions : List Permission) :
    (permissionsToWasi permissions).2 = permissions.filterMap grantHost := by
  rw [permissionsToWasi, foldl_wasiStep]
  rfl

theorem mem_grantPaths {permissions : List Permission} {e : PathBuf × PathBuf} :
    e ∈ grantPaths permissions ↔ e.1 = e.2 ∧ ∃ perm ∈ permissions, grantPath perm = some e.1 := by
  constructor
  · intro h
    obtain ⟨p, hp, rfl⟩ := List.mem_map.mp h
    exact ⟨rfl, List.mem_filterMap.mp hp⟩
  · intro hpair
    obtain ⟨he, h⟩ := hpair
    exact List.mem_map.mpr ⟨e.1, List.mem_filterMap.mpr h, Prod.ext rfl he⟩

/-- Both sides of a mapping are paths of grants. -/
theorem mem_paths {permissions : List Permission} {e : PathBuf × PathBuf}
    (h : e ∈ (permissionsToWasi permissions).1.entries) :
    (∃ perm ∈ permissions, grantPath perm = some e.1) ∧
      (∃ perm ∈ permissions, grantPath perm = some e.2) ∧ rankPath e.1 = rankPath e.2 := by
  rw [permissionsToWasi_paths] at h
  obtain ⟨⟨a, ha, hk⟩, b, hb, hv, hr⟩ := OrderedMap.mem_insertAll h
  obtain ⟨_, hga⟩ := mem_grantPaths.mp ha
  obtain ⟨heb, hgb⟩ := mem_grantPaths.mp hb
  exact ⟨hk ▸ hga, hv ▸ heb ▸ hgb, hv ▸ heb ▸ hr.symm⟩

theorem mem_hosts {permissions : List Permission} {host : String} :
    host ∈ (permissionsToWasi permissions).2 ↔
      ∃ perm ∈ permissions, grantHost perm = some host := by
  rw [permissionsToWasi_hosts, List.mem_filterMap]

/-- The path of every grant is mapped, maybe under another spelling. -/
theorem exists_path {permissions : List Permission} {perm : Permission} {p : PathBuf}
    (hperm : perm ∈ permissions) (hp : grantPath perm = some p) :
    ∃ e ∈ (permissionsToWasi permissions).1.entries, rankPath e.1 = rankPath p := by
  rw [permissionsToWasi_paths]
  refine (OrderedMap.exists_rank_insertAll _ _ _).mpr (Or.inr ⟨(p, p), ?_, rfl⟩)
  exact mem_grantPaths.mpr ⟨rfl, perm, hperm, hp⟩

/-- A manifest carries the maps as they are, or leaves an empty one out. -/
theorem buildManifest_allowedPaths {package : SapphillonPackage} {permissions : List Permission}
    {paths : PathMap} (h : (buildManifest package permissions).allowedPaths = some paths) :
    paths = (permissionsToWasi permissions).1 := by
  simp only [buildManifest] at h
  split at h
  · cases h
  · exact (Option.some.inj h).symm

theorem buildManifest_allowedHosts {package : SapphillonPackage} {permissions : List Permission}
    {hosts : List String} (h : (buildManifest package permissions).allowedHosts = some hosts) :
    hosts = (permissionsToWasi permissions).2 := by
  simp only [buildManifest] at h
  split at h
  · cases h
  · exact (Option.some.inj h).symm

theorem rankComponent_injective : Function.Injective rankComponent := by
  intro c d h
  have h' : (ofLex (rankComponent c)) = ofLex (rankComponent d) := congrArg ofLex h
  cases c <;> cases d <;> simp_all [rankComponent]

/-- Paths that count as one key are equal as paths. -/
theorem components_of_rankPath {p q : PathBuf} (h : rankPath p = rankPath q) :
    p.components = q.components := rankComponent_injective.list_map h

/-- Paths that count as one key denote the same steps. -/
theorem segments_of_rankPath {p q : PathBuf} (h : rankPath p = rankPath q) :
    segments p.inner = segments q.inner := by
  rw [← filterMap_step?_components, ← filterMap_step?_components, components_of_rankPath h]

end Sapphillon.Capabilities
