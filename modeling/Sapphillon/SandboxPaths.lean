import Sapphillon.Capabilities
import Sapphillon.PathSoundness

/-! The path map of a manifest against the permission check. The map keeps no kinds, and
every entry is mounted for reading and writing, so a grant of either kind opens both. -/
namespace Sapphillon.SandboxPaths
open LexicalPath PathText StdPath CheckPath CheckUrl Permission Proto PathSoundness
open ExtPlugin Capabilities

def otherAccess : Access → Access
  | .read => .write
  | .write => .read

/-- A host directory as the sandbox serves it. -/
structure Mount where
  host : PathBuf
  guest : PathBuf
  modes : List Access

/-- Extism mounts each entry of `allowed_paths` for both reading and writing. -/
def mounts (paths : PathMap) : List Mount :=
  paths.entries.map fun e => ⟨e.1, e.2, [.read, .write]⟩

/-- The sandbox gives the function access `k` to the rooted path `b`. -/
def Reaches (paths : PathMap) (k : Access) (b : String) : Prop :=
  ∃ m ∈ mounts paths, k ∈ m.modes ∧ residue (segments m.host.inner) <+: names b

instance (paths : PathMap) (k : Access) (b : String) : Decidable (Reaches paths k b) :=
  inferInstanceAs (Decidable (∃ m ∈ mounts paths, _))

/-- The resources of filesystem grants are rooted. -/
def RootedGrants (g : List Permission) : Prop :=
  ∀ p ∈ g, p.kind = .filesystemRead ∨ p.kind = .filesystemWrite → absolute p.resource = true

instance (g : List Permission) : Decidable (RootedGrants g) :=
  inferInstanceAs (Decidable (∀ p ∈ g, _))

theorem fs_kind_iff (k : Access) (p : Permission) :
    (p.kind = .filesystemRead ∨ p.kind = .filesystemWrite) ↔
      p.kind = k.kind ∨ p.kind = (otherAccess k).kind := by
  cases k
  · rfl
  · exact Or.comm

/-- What is reached lies below the path of some grant. -/
theorem reaches_iff (g : List Permission) (k : Access) (b : String) :
    Reaches (permissionsToWasi g).1 k b ↔
      ∃ perm ∈ g, ∃ p, grantPath perm = some p ∧ residue (segments p.inner) <+: names b := by
  constructor
  · intro h
    obtain ⟨m, hm, _, hb⟩ := h
    obtain ⟨e, he, rfl⟩ := List.mem_map.mp hm
    obtain ⟨⟨perm, hperm, hp⟩, _⟩ := mem_paths he
    exact ⟨perm, hperm, e.1, hp, hb⟩
  · intro h
    obtain ⟨perm, hperm, p, hp, hb⟩ := h
    obtain ⟨e, he, hr⟩ := exists_path hperm hp
    refine ⟨_, List.mem_map.mpr ⟨e, he, rfl⟩, by cases k <;> simp, ?_⟩
    exact segments_of_rankPath hr ▸ hb

/-- Without `AllowAll` a rooted list reaches what its filesystem grants of either kind
cover. -/
theorem reaches_rooted_iff {g : Permissions} (hg : ¬ HasAllowAll g.permissions)
    (habs : RootedGrants g.permissions) (k : Access) {b : String} (hb : absolute b = true) :
    Reaches (permissionsToWasi g.permissions).1 k b ↔
      ∃ p ∈ g.permissions, (p.kind = k.kind ∨ p.kind = (otherAccess k).kind) ∧
        pathCovers p.resource b = true := by
  rw [reaches_iff]
  refine exists_congr fun perm => and_congr_right fun hperm => ?_
  have hallow : perm.kind ≠ .allowAll := fun he => hg ⟨perm, hperm, he⟩
  simp only [grantPath_eq_some, hallow, false_and, false_or, fs_kind_iff k, and_assoc,
    exists_and_left, exists_eq_left]
  refine and_congr_right fun hk => ?_
  exact (pathCovers_absolute (habs perm hperm ((fs_kind_iff k perm).mpr hk)) hb).symm

variable (parse : String → Option Url)

/-- One access: the sandbox stays within the check unless a grant of the other kind
reaches further than the grants of the kind asked for. -/
theorem reach_allowed_iff {g : Permissions} (habs : RootedGrants g.permissions) (k : Access)
    {b : String} (hb : absolute b = true) :
    (Reaches (permissionsToWasi g.permissions).1 k b →
        checkPermission parse g ⟨[Permission.new k.kind b]⟩ = .ok) ↔
      HasAllowAll g.permissions ∨
        ∀ p ∈ g.permissions, p.kind = (otherAccess k).kind → pathCovers p.resource b = true →
          ∃ q ∈ g.permissions, q.kind = k.kind ∧ pathCovers q.resource b = true := by
  by_cases hg : HasAllowAll g.permissions
  · exact iff_of_true (fun _ => checkPermission_allowAll parse hg _) (Or.inl hg)
  rw [or_iff_right hg, reaches_rooted_iff hg habs k hb, checkPermission_path_list parse hg]
  constructor
  · intro h p hp hk hc
    exact h ⟨p, hp, Or.inr hk, hc⟩
  · intro h hopen
    obtain ⟨p, hp, hk | hk, hc⟩ := hopen
    · exact ⟨p, hp, hk, hc⟩
    · exact h p hp hk hc

/-- The sandbox of a rooted list stays within the check for an access kind exactly when
the list has `AllowAll`, or each grant of the other kind lies below one of that kind. -/
theorem sandbox_within_grants_iff (g : Permissions) (habs : RootedGrants g.permissions)
    (k : Access) :
    (∀ b, absolute b = true →
      ((Reaches (permissionsToWasi g.permissions).1 k b →
          checkPermission parse g ⟨[Permission.new k.kind b]⟩ = .ok) ↔
        HasAllowAll g.permissions ∨
          ∀ p ∈ g.permissions, p.kind = (otherAccess k).kind → pathCovers p.resource b = true →
            ∃ q ∈ g.permissions, q.kind = k.kind ∧ pathCovers q.resource b = true)) ∧
    ((∀ b, absolute b = true → Reaches (permissionsToWasi g.permissions).1 k b →
        checkPermission parse g ⟨[Permission.new k.kind b]⟩ = .ok) ↔
      HasAllowAll g.permissions ∨
        ∀ p ∈ g.permissions, p.kind = (otherAccess k).kind →
          ∃ q ∈ g.permissions, q.kind = k.kind ∧ pathCovers q.resource p.resource = true) := by
  have hpoint (b : String) (hb : absolute b = true) := reach_allowed_iff parse habs k hb
  refine ⟨hpoint, ?_⟩
  constructor
  · intro h
    by_cases hg : HasAllowAll g.permissions
    · exact Or.inl hg
    refine Or.inr fun p hp hk => ?_
    have hp' : absolute p.resource = true := habs p hp ((fs_kind_iff k p).mpr (Or.inr hk))
    exact ((hpoint p.resource hp').mp (h p.resource hp')).resolve_left hg p hp hk
      (pathCovers_refl p.resource)
  · intro h b hb
    refine (hpoint b hb).mpr (h.imp_right fun hbelow p hp hk hc => ?_)
    obtain ⟨q, hq, hqk, hqc⟩ := hbelow p hp hk
    exact ⟨q, hq, hqk, pathCovers_trans hqc hc⟩

theorem sandbox_reads_below_reads :
    RootedGrants [Permission.new .filesystemRead "/data",
        Permission.new .filesystemWrite "/data/tmp"] ∧
      checkPermission (fun _ => none) ⟨[Permission.new .filesystemRead "/data",
        Permission.new .filesystemWrite "/data/tmp"]⟩
        ⟨[Permission.new Access.read.kind "/data/tmp/x"]⟩ = .ok :=
  ⟨by decide, (sandbox_within_grants_iff (fun _ => none) ⟨[Permission.new .filesystemRead "/data",
    Permission.new .filesystemWrite "/data/tmp"]⟩ (by decide) .read).2.mpr (Or.inr (by decide))
      "/data/tmp/x" (by decide) (by decide)⟩

/-- A single read grant lets the function write. -/
theorem sandbox_read_grant_writes :
    RootedGrants [Permission.new .filesystemRead "/data"] ∧ absolute "/data" = true ∧
      Reaches (permissionsToWasi [Permission.new .filesystemRead "/data"]).1 .write "/data" ∧
      checkPermission (fun _ => none) ⟨[Permission.new .filesystemRead "/data"]⟩
        ⟨[Permission.new Access.write.kind "/data"]⟩ ≠ .ok := by
  decide

/-! ### The other direction -/

/-- The paths a rooted list opens are rooted. -/
theorem isAbsolute_grantPath {g : List Permission} (habs : RootedGrants g) {perm : Permission}
    (hperm : perm ∈ g) {p : PathBuf} (hp : grantPath perm = some p) :
    isAbsolute p.inner = true := by
  cases grantPath_eq_some.mp hp with
  | inl hroot =>
    rw [hroot.2]
    rfl
  | inr hres =>
    rw [hres.2]
    exact habs perm hperm hres.1

/-- The path of a grant that covers a filesystem access is above it. -/
theorem exists_grant_above {g : Permissions} (habs : RootedGrants g.permissions) {k : Access}
    {b : String} (hb : absolute b = true)
    (hok : checkPermission parse g ⟨[Permission.new k.kind b]⟩ = .ok) :
    ∃ perm ∈ g.permissions, ∃ p, grantPath perm = some p ∧
      residue (segments p.inner) <+: names b := by
  by_cases hg : HasAllowAll g.permissions
  · obtain ⟨perm, hperm, hk⟩ := hg
    exact ⟨perm, hperm, _, grantPath_eq_some.mpr (Or.inl ⟨hk, rfl⟩), List.nil_prefix⟩
  · obtain ⟨perm, hperm, hk, hc⟩ := (checkPermission_path_list parse hg k b).mp hok
    have hfs := (fs_kind_iff k perm).mpr (Or.inl hk)
    refine ⟨perm, hperm, _, grantPath_eq_some.mpr (Or.inr ⟨hfs, rfl⟩), ?_⟩
    exact (pathCovers_absolute (habs perm hperm hfs) hb).mp hc

/-- Every filesystem access a rooted list is granted lies at or below a mapped path, on the
host's side of the mapping and on the guest's. -/
theorem sandbox_serves_granted (g : Permissions) (habs : RootedGrants g.permissions) (k : Access)
    (b : String) (hb : absolute b = true)
    (hok : checkPermission parse g ⟨[Permission.new k.kind b]⟩ = .ok) :
    ∃ e ∈ (permissionsToWasi g.permissions).1.entries, ∀ w : String,
      location w.toList e.1.inner <+: locate w b ∧
        location w.toList e.2.inner <+: locate w b := by
  obtain ⟨perm, hperm, p, hp, habove⟩ := exists_grant_above parse habs hb hok
  obtain ⟨e, he, hrank⟩ := exists_path hperm hp
  obtain ⟨⟨perm₁, hperm₁, hp₁⟩, ⟨perm₂, hperm₂, hp₂⟩, hsame⟩ := mem_paths he
  refine ⟨e, he, fun w => ?_⟩
  rw [locate_absolute w hb, location_absolute _ (isAbsolute_grantPath habs hperm₁ hp₁),
    location_absolute _ (isAbsolute_grantPath habs hperm₂ hp₂),
    ← segments_of_rankPath hsame, segments_of_rankPath hrank]
  exact ⟨habove, habove⟩

theorem sandbox_serves_below_data :
    ∃ e ∈ (permissionsToWasi [Permission.new .filesystemRead "/tmp",
        Permission.new .filesystemWrite "//data/./x/.."]).1.entries, ∀ w : String,
      location w.toList e.1.inner <+: locate w "/data/../data/y/" ∧
        location w.toList e.2.inner <+: locate w "/data/../data/y/" :=
  sandbox_serves_granted (fun _ => none) ⟨[Permission.new .filesystemRead "/tmp",
    Permission.new .filesystemWrite "//data/./x/.."]⟩ (by decide) .write "/data/../data/y/"
      (by decide) (by decide)

end Sapphillon.SandboxPaths
