import Sapphillon.Capabilities
import Sapphillon.Permission

/-! What `Permissions::merge` keeps of a list, for the permission check and for the maps of
a manifest. Every entry is compared with all differently spelled entries at once, so two
spellings of one resource drop each other unless something above both survives. -/
namespace Sapphillon.MergeLaws
open CheckUrl Coverage Permission Proto StdPath ExtPlugin Capabilities

variable (parse : String → Option Url)

/-- Each entry with an equal in coverage lies strictly below some entry. -/
def AliasesCovered (g : List Permission) : Prop :=
  ∀ p ∈ g, (∃ q ∈ g, q ≠ p ∧ Covers parse q p ∧ Covers parse p q) →
    ∃ q ∈ g, Covers parse q p ∧ ¬ Covers parse p q

instance (g : List Permission) : Decidable (AliasesCovered parse g) :=
  inferInstanceAs (Decidable (∀ p ∈ g, _))

theorem resource_kind {g : List Permission} (h : ¬ HasAllowAll g) {p : Permission} (hp : p ∈ g)
    (hk : p.kind ≠ .unspecified) : IsResource p.kind := by
  have hallow : p.kind ≠ .allowAll := fun he => h ⟨p, hp, he⟩
  rcases hkind : p.kind <;> simp_all [IsResource]

/-- A requirement of the merged list is met by an undominated entry of the list. -/
theorem merge_ok_iff {g : Permissions} (h : ¬ HasAllowAll g.permissions) (x : Permission) :
    checkPermission parse (g.merge parse) ⟨[x]⟩ = .ok ↔
      ∃ p ∈ g.permissions,
        IsResource p.kind ∧ Undominated (Covers parse) g.permissions p ∧ Covers parse p x := by
  rw [checkPermission_singleton_iff]
  refine exists_congr fun p => ?_
  rw [mem_merge parse h]
  tauto

/-- An entry of a number outside the named kinds covers itself and is dropped. -/
theorem unspecified_lost {g : Permissions} (h : ¬ HasAllowAll g.permissions) {p : Permission}
    (hp : p ∈ g.permissions) (hk : p.kind = .unspecified) :
    checkPermission parse g ⟨[p]⟩ = .ok ∧ checkPermission parse (g.merge parse) ⟨[p]⟩ ≠ .ok := by
  constructor
  · exact (checkPermission_singleton_iff parse g p).mpr
      ⟨p, hp, covers_refl parse fun hn => by rw [hk] at hn; cases hn⟩
  · rw [Ne, merge_ok_iff parse h]
    intro hmerged
    obtain ⟨q, hq, hqk, _, hc⟩ := hmerged
    rw [hc.kind_eq parse fun he => h ⟨q, hq, he⟩, hk] at hqk
    rcases hqk with he | he | he <;> cases he

/-- Merging keeps every accepted requirement exactly for lists with `AllowAll`, and for
lists of the three resource kinds in which no alias class is maximal. -/
theorem merge_keeps_grants_iff (g : Permissions) :
    (∀ r, checkPermission parse g r = .ok → checkPermission parse (g.merge parse) r = .ok) ↔
      HasAllowAll g.permissions ∨
        ((∀ p ∈ g.permissions, p.kind ≠ .unspecified) ∧ AliasesCovered parse g.permissions) := by
  by_cases h : HasAllowAll g.permissions
  · have hm : HasAllowAll (g.merge parse).permissions := (hasAllowAll_merge_iff parse g).mpr h
    exact iff_of_true (fun r _ => checkPermission_allowAll parse hm r) (Or.inl h)
  rw [or_iff_right h]
  constructor
  · intro hkeep
    refine ⟨fun p hp hk => ?_, (undominated_covers_all_iff g.permissions).mp fun x hx => ?_⟩
    · obtain ⟨hok, hno⟩ := unspecified_lost parse h hp hk
      exact hno (hkeep _ hok)
    · have hm := hkeep ⟨[x]⟩ ((checkPermission_singleton_iff parse g x).mpr hx)
      obtain ⟨p, hp, _, hu, hc⟩ := (merge_ok_iff parse h x).mp hm
      exact ⟨p, hp, hu, hc⟩
  · intro hcond r hr
    obtain ⟨hkind, halias⟩ := hcond
    rw [checkPermission_ok_iff] at hr ⊢
    intro x hx
    obtain ⟨p, hp, hu, hc⟩ :=
      (undominated_covers_all_iff g.permissions).mpr halias x (hr x hx)
    exact ⟨p, (mem_merge parse h p).mpr ⟨hp, resource_kind h hp (hkind p hp), hu⟩, hc⟩

theorem merge_keeps_below_root :
    checkPermission (fun _ => none)
      (Permissions.merge (fun _ => none) ⟨[Permission.new .filesystemRead "/a",
        Permission.new .filesystemRead "/a/", Permission.new .filesystemRead "/"]⟩)
      ⟨[Permission.new .filesystemRead "/a/b"]⟩ = .ok :=
  (merge_keeps_grants_iff (fun _ => none) ⟨[Permission.new .filesystemRead "/a",
    Permission.new .filesystemRead "/a/", Permission.new .filesystemRead "/"]⟩).mpr
      (Or.inr (by decide)) _ (by decide)

/-- Two spellings of one directory are both dropped, and so is a custom type. -/
theorem merge_drops_aliases :
    (checkPermission (fun _ => none)
        ⟨[Permission.new .filesystemRead "/a", Permission.new .filesystemRead "/a/"]⟩
        ⟨[Permission.new .filesystemRead "/a"]⟩ = .ok ∧
      checkPermission (fun _ => none)
        (Permissions.merge (fun _ => none)
          ⟨[Permission.new .filesystemRead "/a", Permission.new .filesystemRead "/a/"]⟩)
        ⟨[Permission.new .filesystemRead "/a"]⟩ ≠ .ok) ∧
    checkPermission (fun _ => none) ⟨[⟨7, ""⟩]⟩ ⟨[⟨7, ""⟩]⟩ = .ok ∧
      checkPermission (fun _ => none) (Permissions.merge (fun _ => none) ⟨[⟨7, ""⟩]⟩)
        ⟨[⟨7, ""⟩]⟩ ≠ .ok := by
  decide

/-! ### The resource kinds alone -/

/-- Below a list without `AllowAll`, coverage keeps the resource kinds. -/
theorem isResource_iff_of_covers {g : List Permission} (h : ¬ HasAllowAll g) {p : Permission}
    (hp : p ∈ g) {x : Permission} (hc : Covers parse p x) :
    IsResource p.kind ↔ IsResource x.kind := by
  rw [hc.kind_eq parse fun he => h ⟨p, hp, he⟩]

/-- Entries of one resource kind are different when their resources are spelled
differently. -/
theorem alias_iff {g : List Permission} (h : ¬ HasAllowAll g) {p : Permission}
    (hp : IsResource p.kind) :
    (∃ q ∈ g, q ≠ p ∧ Covers parse q p ∧ Covers parse p q) ↔
      ∃ q ∈ g, q.kind = p.kind ∧ q.resource ≠ p.resource ∧ Covers parse q p ∧ Covers parse p q := by
  have hne : p.kind ≠ .unspecified := by
    intro he
    simp [IsResource, he] at hp
  refine exists_congr fun q => and_congr_right fun hq => ?_
  constructor
  · intro halias
    obtain ⟨hqp, hcq, hcp⟩ := halias
    have hk : q.kind = p.kind := hcq.kind_eq parse fun he => h ⟨q, hq, he⟩
    exact ⟨hk, fun hr => hqp ((eq_iff_resource_eq hk (hk ▸ hne)).mpr hr), hcq, hcp⟩
  · intro halias
    obtain ⟨_, hr, hcq, hcp⟩ := halias
    exact ⟨fun he => hr (congrArg Permission.resource he), hcq, hcp⟩

/-- Without `AllowAll` merging keeps every accepted requirement of the resource kinds
exactly when each entry of these kinds that a differently spelled entry equals in coverage
lies strictly below some entry. -/
theorem merge_lossless_iff (g : Permissions) (h : ¬ HasAllowAll g.permissions) :
    (∀ x : Permission, IsResource x.kind → checkPermission parse g ⟨[x]⟩ = .ok →
        checkPermission parse (g.merge parse) ⟨[x]⟩ = .ok) ↔
      ∀ p ∈ g.permissions, IsResource p.kind →
        (∃ q ∈ g.permissions, q.kind = p.kind ∧ q.resource ≠ p.resource ∧
          Covers parse q p ∧ Covers parse p q) →
        ∃ q ∈ g.permissions, q.kind = p.kind ∧ Covers parse q p ∧ ¬ Covers parse p q := by
  have hclass := undominated_covers_iff (R := Covers parse) g.permissions
    (C := fun p => IsResource p.kind) fun p hp x hc => isResource_iff_of_covers parse h hp hc
  have hleft : (∀ x : Permission, IsResource x.kind → checkPermission parse g ⟨[x]⟩ = .ok →
      checkPermission parse (g.merge parse) ⟨[x]⟩ = .ok) ↔
      ∀ x : Permission, IsResource x.kind → (∃ p ∈ g.permissions, Covers parse p x) →
        ∃ p ∈ g.permissions, Undominated (Covers parse) g.permissions p ∧ Covers parse p x := by
    refine forall_congr' fun x => imp_congr_right fun hx => ?_
    rw [checkPermission_singleton_iff, merge_ok_iff parse h]
    refine imp_congr_right fun _ => exists_congr fun p => and_congr_right fun hp => ?_
    constructor
    · exact fun hm => hm.2
    · exact fun hm => ⟨(isResource_iff_of_covers parse h hp hm.2).mpr hx, hm⟩
  rw [hleft, hclass]
  refine forall_congr' fun p => imp_congr_right fun hp => imp_congr_right fun hk => ?_
  rw [alias_iff parse h hk]
  refine imp_congr_right fun _ => exists_congr fun q => and_congr_right fun hq => ?_
  constructor
  · exact fun hs => ⟨hs.1.kind_eq parse fun he => h ⟨q, hq, he⟩, hs.1, hs.2⟩
  · exact fun hs => ⟨hs.2.1, hs.2.2⟩

theorem merge_lossless_below_root :
    checkPermission (fun _ => none)
      (Permissions.merge (fun _ => none) ⟨[Permission.new .filesystemWrite "/a/.",
        Permission.new .filesystemWrite "/a", Permission.new .filesystemWrite "//", ⟨7, ""⟩]⟩)
      ⟨[Permission.new .filesystemWrite "/a/b"]⟩ = .ok :=
  (merge_lossless_iff (fun _ => none) ⟨[Permission.new .filesystemWrite "/a/.",
    Permission.new .filesystemWrite "/a", Permission.new .filesystemWrite "//", ⟨7, ""⟩]⟩
      (by decide)).mpr (by decide) _ (by decide) (by decide)

/-! ### Nothing is added -/

/-- Each entry of a merged list stands for an entry of the list that opens the same. -/
theorem exists_of_mem_merge {g : Permissions} {p : Permission}
    (hp : p ∈ (g.merge parse).permissions) :
    ∃ q ∈ g.permissions, grantPath q = grantPath p ∧ grantHost q = grantHost p := by
  by_cases h : HasAllowAll g.permissions
  · rw [merge_allowAll parse h] at hp
    obtain rfl := List.mem_singleton.mp hp
    obtain ⟨q, hq, hk⟩ := h
    exact ⟨q, hq, by simp [grantPath, hk], by simp [grantHost, hk]⟩
  · exact ⟨p, ((mem_merge parse h p).mp hp).1, rfl, rfl⟩

theorem merge_ok_of_ok {g r : Permissions} (hr : checkPermission parse (g.merge parse) r = .ok) :
    checkPermission parse g r = .ok := by
  by_cases h : HasAllowAll g.permissions
  · exact checkPermission_allowAll parse h r
  · rw [checkPermission_ok_iff] at hr ⊢
    intro x hx
    obtain ⟨p, hp, hc⟩ := hr x hx
    exact ⟨p, ((mem_merge parse h p).mp hp).1, hc⟩

/-- Merging adds no accepted requirement, no mapped path, up to the equality of paths, and
no host. -/
theorem merge_never_widens (g : Permissions) :
    (∀ r, checkPermission parse (g.merge parse) r = .ok → checkPermission parse g r = .ok) ∧
    (∀ e ∈ (permissionsToWasi (g.merge parse).permissions).1.entries,
      ∃ e' ∈ (permissionsToWasi g.permissions).1.entries,
        e'.1.components = e.1.components ∧ e'.2.components = e.2.components) ∧
    ∀ host ∈ (permissionsToWasi (g.merge parse).permissions).2,
      host ∈ (permissionsToWasi g.permissions).2 := by
  refine ⟨fun r => merge_ok_of_ok parse, fun e he => ?_, fun host hhost => ?_⟩
  · obtain ⟨⟨p, hp, hkey⟩, _, hrank⟩ := mem_paths he
    obtain ⟨q, hq, hpath, _⟩ := exists_of_mem_merge parse hp
    obtain ⟨e', he', hrank'⟩ := exists_path hq (hpath.trans hkey)
    obtain ⟨_, _, hrank''⟩ := mem_paths he'
    refine ⟨e', he', components_of_rankPath hrank', components_of_rankPath ?_⟩
    exact hrank''.symm.trans (hrank'.trans hrank)
  · obtain ⟨p, hp, hh⟩ := mem_hosts.mp hhost
    obtain ⟨q, hq, _, hhost'⟩ := exists_of_mem_merge parse hp
    exact mem_hosts.mpr ⟨q, hq, hhost'.trans hh⟩

end Sapphillon.MergeLaws
