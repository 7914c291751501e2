import Sapphillon.CheckPath
import Sapphillon.CheckUrl
import Sapphillon.Coverage
import Sapphillon.Grouping
import Sapphillon.Proto

/-! `permission/mod.rs`: merging grants, checking requirements against grants, and the
grants recorded for a function. The checks are restated through one relation between
entries, `Covers`. -/
namespace Sapphillon.Permission
open CheckPath CheckUrl Coverage Grouping Proto

structure Permissions where
  permissions : List Permission
deriving DecidableEq, Repr

variable (parse : String → Option Url)

/-- One round of the loop over the three resource kinds in `merge`. -/
def mergeKind (perms : List Permission) (kind : PermissionType) : List Permission :=
  let group := perms.filter fun p => p.kind == kind
  let resources := group.map Permission.resource
  let others := fun p : Permission => resources.filter (· != p.resource)
  match kind with
  | .filesystemRead | .filesystemWrite =>
    group.filter fun p => !pathsCoverByAncestor (others p) [p.resource]
  | .networkAccess =>
    group.filter fun p => !urlsCoverByAncestor parse (others p) [p.resource]
  -- `unreachable!()`: the loop names the three kinds above only.
  | .allowAll | .unspecified => []

/-- The last loop of `merge`: its catch-all arm has no kind left to take. -/
def passesThrough (p : Permission) : Bool :=
  match p.kind with
  | .filesystemRead | .filesystemWrite | .networkAccess | .allowAll | .unspecified => false

def Permissions.merge (self : Permissions) : Permissions :=
  let perms := self.permissions
  if perms.any fun p => p.kind == .allowAll then
    ⟨[Permission.new .allowAll ""]⟩
  else
    let out := [.filesystemRead, .filesystemWrite, .networkAccess].flatMap (mergeKind parse perms)
    ⟨out ++ perms.filter passesThrough⟩

structure PluginFunctionPermissions where
  pluginFunctionId : String
  permissions : Permissions
deriving DecidableEq, Repr

inductive CheckPermissionResult where
  | ok
  | missingPermission (missing : Permissions)
deriving DecidableEq, Repr

/-- The `covered` flag of one required entry. -/
def reqCovered (granted : List Permission) (req : Permission) : Bool :=
  match req.kind with
  | .filesystemRead | .filesystemWrite =>
    let grantedPaths := (granted.filter fun p => p.kind == req.kind).map Permission.resource
    pathsCoverByAncestor grantedPaths [req.resource]
  | .networkAccess =>
    let grantedUrls := (granted.filter fun p => p.kind == .networkAccess).map Permission.resource
    urlsCoverByAncestor parse grantedUrls [req.resource]
  | .allowAll | .unspecified =>
    granted.any fun p => p.permissionType == req.permissionType

def checkPermission (granted required : Permissions) : CheckPermissionResult :=
  if granted.permissions.any fun p => p.kind == .allowAll then .ok
  else
    let missing := required.permissions.filter fun req => !reqCovered parse granted.permissions req
    if missing.isEmpty then .ok else .missingPermission ⟨missing⟩

/-- The entries recorded under any of the target ids, in order. -/
def recorded (allowed : List PluginFunctionPermissions) (targetFunctionIds : List String) :
    List Permission :=
  (allowed.filter fun pfp => targetFunctionIds.contains pfp.pluginFunctionId).flatMap
    fun pfp => pfp.permissions.permissions

def findAllowedPermissions (allowed : List PluginFunctionPermissions)
    (targetFunctionIds : List String) : Permissions :=
  Permissions.merge parse ⟨recorded allowed targetFunctionIds⟩

/-! ### The relation behind both functions -/

/-- The coverage rule of one required kind. -/
def KindCovers (p req : Permission) : PermissionType → Prop
  | .filesystemRead => p.kind = .filesystemRead ∧ pathCovers p.resource req.resource = true
  | .filesystemWrite => p.kind = .filesystemWrite ∧ pathCovers p.resource req.resource = true
  | .networkAccess => p.kind = .networkAccess ∧ urlCovers parse p.resource req.resource = true
  | .allowAll | .unspecified => p.permissionType = req.permissionType

/-- A grant entry covers a required entry. -/
def Covers (p req : Permission) : Prop :=
  p.kind = .allowAll ∨ KindCovers parse p req req.kind

instance (p req : Permission) : (k : PermissionType) → Decidable (KindCovers parse p req k)
  | .filesystemRead | .filesystemWrite | .networkAccess => inferInstanceAs (Decidable (_ ∧ _))
  | .allowAll | .unspecified => inferInstanceAs (Decidable (_ = _))

instance (p req : Permission) : Decidable (Covers parse p req) :=
  inferInstanceAs (Decidable (_ ∨ _))

def HasAllowAll (perms : List Permission) : Prop := ∃ p ∈ perms, p.kind = .allowAll

instance (perms : List Permission) : Decidable (HasAllowAll perms) :=
  inferInstanceAs (Decidable (∃ p ∈ perms, p.kind = .allowAll))

theorem any_allowAll_iff (perms : List Permission) :
    (perms.any fun p => p.kind == .allowAll) = true ↔ HasAllowAll perms := by
  simp [HasAllowAll]

theorem any_allowAll_eq_false {perms : List Permission} (h : ¬ HasAllowAll perms) :
    (perms.any fun p => p.kind == .allowAll) = false :=
  Bool.eq_false_iff.mpr fun ht => h ((any_allowAll_iff perms).mp ht)

theorem covers_path {p req : Permission} (hp : p.kind ≠ .allowAll)
    (hreq : req.kind = .filesystemRead ∨ req.kind = .filesystemWrite) :
    Covers parse p req ↔ p.kind = req.kind ∧ pathCovers p.resource req.resource = true := by
  rcases hreq with h | h <;> simp [Covers, KindCovers, h, hp]

theorem covers_url {p req : Permission} (hp : p.kind ≠ .allowAll)
    (hreq : req.kind = .networkAccess) :
    Covers parse p req ↔
      p.kind = .networkAccess ∧ urlCovers parse p.resource req.resource = true := by
  simp [Covers, KindCovers, hreq, hp]

theorem covers_other {p req : Permission} (hp : p.kind ≠ .allowAll)
    (hreq : req.kind = .allowAll ∨ req.kind = .unspecified) :
    Covers parse p req ↔ p.permissionType = req.permissionType := by
  rcases hreq with h | h <;> simp [Covers, KindCovers, h, hp]

/-- Outside `AllowAll` an entry covers only entries of its own kind. -/
theorem Covers.kind_eq {p req : Permission} (h : Covers parse p req) (hp : p.kind ≠ .allowAll) :
    p.kind = req.kind := by
  cases hreq : req.kind with
  | unspecified =>
    exact hreq ▸ kind_eq_of_permissionType_eq ((covers_other parse hp (Or.inr hreq)).mp h)
  | allowAll =>
    exact hreq ▸ kind_eq_of_permissionType_eq ((covers_other parse hp (Or.inl hreq)).mp h)
  | filesystemRead => exact hreq ▸ ((covers_path parse hp (Or.inl hreq)).mp h).1
  | filesystemWrite => exact hreq ▸ ((covers_path parse hp (Or.inr hreq)).mp h).1
  | networkAccess => exact ((covers_url parse hp hreq).mp h).1

theorem covers_refl {p : Permission}
    (h : p.kind = .networkAccess → (parse p.resource).isSome) : Covers parse p p := by
  cases hk : p.kind with
  | unspecified => exact Or.inr (by simp [KindCovers, hk])
  | allowAll => exact Or.inl hk
  | filesystemRead => exact Or.inr (by simp [KindCovers, hk, pathCovers_refl])
  | filesystemWrite => exact Or.inr (by simp [KindCovers, hk, pathCovers_refl])
  | networkAccess => exact Or.inr (by simp [KindCovers, hk, urlCovers_refl parse (h hk)])

theorem covers_trans {a b c : Permission} (hab : Covers parse a b) (hbc : Covers parse b c) :
    Covers parse a c := by
  by_cases ha : a.kind = .allowAll
  · exact Or.inl ha
  have hkab : a.kind = b.kind := hab.kind_eq parse ha
  have hb : b.kind ≠ .allowAll := hkab ▸ ha
  have hkbc : b.kind = c.kind := hbc.kind_eq parse hb
  have hpath (hc : c.kind = .filesystemRead ∨ c.kind = .filesystemWrite) : Covers parse a c := by
    rw [covers_path parse ha (by rwa [hkbc])] at hab
    rw [covers_path parse hb hc] at hbc
    exact (covers_path parse ha hc).mpr ⟨hkab.trans hkbc, pathCovers_trans hab.2 hbc.2⟩
  cases hc : c.kind with
  | unspecified =>
    rw [covers_other parse ha (Or.inr (hkbc.trans hc))] at hab
    rw [covers_other parse hb (Or.inr hc)] at hbc
    exact (covers_other parse ha (Or.inr hc)).mpr (hab.trans hbc)
  | allowAll => exact absurd (hkbc.trans hc) hb
  | filesystemRead => exact hpath (Or.inl hc)
  | filesystemWrite => exact hpath (Or.inr hc)
  | networkAccess =>
    rw [covers_url parse ha (hkbc.trans hc)] at hab
    rw [covers_url parse hb hc] at hbc
    exact (covers_url parse ha hc).mpr ⟨hab.1, urlCovers_trans parse hab.2 hbc.2⟩

instance : IsTrans Permission (Covers parse) := ⟨fun _ _ _ => covers_trans parse⟩

/-! ### One lemma for each function -/

/-- The flag of one requirement says that some entry covers it. -/
theorem reqCovered_iff {granted : List Permission} (h : ¬ HasAllowAll granted)
    (req : Permission) :
    reqCovered parse granted req = true ↔ ∃ p ∈ granted, Covers parse p req := by
  have hkind : ∀ p ∈ granted, p.kind ≠ .allowAll := fun p hp he => h ⟨p, hp, he⟩
  have hother (hreq : req.kind = .allowAll ∨ req.kind = .unspecified) :
      (∃ p ∈ granted, Covers parse p req) ↔
        ∃ p ∈ granted, p.permissionType = req.permissionType :=
    exists_congr fun p => and_congr_right fun hp => covers_other parse (hkind p hp) hreq
  have hpath (hreq : req.kind = .filesystemRead ∨ req.kind = .filesystemWrite) :
      (∃ p ∈ granted, Covers parse p req) ↔
        ∃ p ∈ granted, p.kind = req.kind ∧ pathCovers p.resource req.resource = true :=
    exists_congr fun p => and_congr_right fun hp => covers_path parse (hkind p hp) hreq
  unfold reqCovered
  cases hreq : req.kind with
  | unspecified => simp [hother (Or.inr hreq)]
  | allowAll => simp [hother (Or.inl hreq)]
  | filesystemRead => simp [hpath (Or.inl hreq), pathsCoverByAncestor_singleton, hreq, and_assoc]
  | filesystemWrite => simp [hpath (Or.inr hreq), pathsCoverByAncestor_singleton, hreq, and_assoc]
  | networkAccess =>
    have hurl : (∃ p ∈ granted, Covers parse p req) ↔ ∃ p ∈ granted,
        p.kind = .networkAccess ∧ urlCovers parse p.resource req.resource = true :=
      exists_congr fun p => and_congr_right fun hp => covers_url parse (hkind p hp) hreq
    simp [hurl, urlsCoverByAncestor_singleton, and_assoc]

theorem checkPermission_allowAll {granted : Permissions} (h : HasAllowAll granted.permissions)
    (required : Permissions) : checkPermission parse granted required = .ok :=
  if_pos ((any_allowAll_iff _).mpr h)

/-- `check_permission` accepts exactly when every requirement has an entry covering it. -/
theorem checkPermission_ok_iff (granted required : Permissions) :
    checkPermission parse granted required = .ok ↔
      CoversAll (Covers parse) granted.permissions required.permissions := by
  by_cases h : HasAllowAll granted.permissions
  · obtain ⟨p, hp, hk⟩ := h
    exact iff_of_true (checkPermission_allowAll parse ⟨p, hp, hk⟩ required)
      fun _ _ => ⟨p, hp, Or.inl hk⟩
  · unfold checkPermission CoversAll
    simp only [any_allowAll_eq_false h, Bool.false_eq_true, if_false, ← reqCovered_iff parse h]
    split
    · simp_all
    · simp_all

/-- A report of missing entries lists the requirements whose flag is not set. -/
theorem checkPermission_missing {granted required m : Permissions}
    (h : checkPermission parse granted required = .missingPermission m) :
    ¬ HasAllowAll granted.permissions ∧ m.permissions ≠ [] ∧
      m.permissions =
        required.permissions.filter fun req => !reqCovered parse granted.permissions req := by
  unfold checkPermission at h
  split at h
  · cases h
  · rename_i hall
    simp only at h
    split at h
    · cases h
    · rename_i hne
      obtain rfl := CheckPermissionResult.missingPermission.inj h
      exact ⟨fun hm => hall ((any_allowAll_iff _).mpr hm), by simpa using hne, rfl⟩

theorem checkPermission_singleton_iff (granted : Permissions) (req : Permission) :
    checkPermission parse granted ⟨[req]⟩ = .ok ↔
      ∃ p ∈ granted.permissions, Covers parse p req := by
  simp [checkPermission_ok_iff, CoversAll]

/-! ### What merging keeps -/

/-- The kinds whose resources are compared. -/
def IsResource (k : PermissionType) : Prop :=
  k = .filesystemRead ∨ k = .filesystemWrite ∨ k = .networkAccess

instance (k : PermissionType) : Decidable (IsResource k) :=
  inferInstanceAs (Decidable (_ ∨ _ ∨ _))

/-- The resources of the differently spelled entries of one kind. -/
theorem mem_others (perms : List Permission) (k : PermissionType) (r : String) (x : String) :
    x ∈ ((perms.filter fun q => q.kind == k).map Permission.resource).filter (· != r) ↔
      ∃ q ∈ perms, q.kind = k ∧ q.resource ≠ r ∧ q.resource = x := by
  simp only [List.mem_filter, List.mem_map, beq_iff_eq, bne_iff_ne]
  constructor
  · intro h
    obtain ⟨⟨q, ⟨hq, hk⟩, rfl⟩, hne⟩ := h
    exact ⟨q, hq, hk, hne, rfl⟩
  · intro h
    obtain ⟨q, hq, hk, hne, rfl⟩ := h
    exact ⟨⟨q, ⟨hq, hk⟩, rfl⟩, hne⟩

/-- In a list without `AllowAll` an entry of a resource kind is dominated only by the
differently spelled entries of its kind. -/
theorem undominated_iff {perms : List Permission} (h : ¬ HasAllowAll perms) {p : Permission}
    (hp : IsResource p.kind) :
    Undominated (Covers parse) perms p ↔
      ∀ q ∈ perms, q.kind = p.kind → q.resource ≠ p.resource → ¬ Covers parse q p := by
  have hne : p.kind ≠ .unspecified := by rcases hp with hp | hp | hp <;> simp [hp]
  constructor
  · intro hu q hq hk hr
    exact hu q hq fun he => hr (congrArg Permission.resource he)
  · intro hu q hq hqp hc
    have hqk : q.kind = p.kind := hc.kind_eq parse fun he => h ⟨q, hq, he⟩
    exact hu q hq hqk (fun hr => hqp ((eq_iff_resource_eq hqk (hqk ▸ hne)).mpr hr)) hc

/-- The comparison with the differently spelled entries, for either coverage test. -/
theorem survives_iff {perms : List Permission} (h : ¬ HasAllowAll perms) {p : Permission}
    (hp : IsResource p.kind) {coverBy : List String → List String → Bool}
    {cover : String → String → Bool}
    (hlist : ∀ a y, coverBy a [y] = true ↔ ∃ x ∈ a, cover x y = true)
    (hcov : ∀ q ∈ perms, Covers parse q p ↔
      q.kind = p.kind ∧ cover q.resource p.resource = true) :
    (!coverBy (((perms.filter fun q => q.kind == p.kind).map Permission.resource).filter
      (· != p.resource)) [p.resource]) = true ↔ Undominated (Covers parse) perms p := by
  rw [undominated_iff parse h hp, Bool.not_eq_true', ← Bool.not_eq_true, hlist]
  constructor
  · intro hno q hq hqp hr hc
    exact hno ⟨q.resource, (mem_others _ _ _ _).mpr ⟨q, hq, hqp, hr, rfl⟩, ((hcov q hq).mp hc).2⟩
  · intro hu hcovered
    obtain ⟨x, hx, hc⟩ := hcovered
    obtain ⟨q, hq, hqk, hr, rfl⟩ := (mem_others _ _ _ _).mp hx
    exact hu q hq hqk hr ((hcov q hq).mpr ⟨hqk, hc⟩)

/-- A round of `merge` keeps the survivors of its kind. -/
theorem mergeKind_eq {perms : List Permission} (h : ¬ HasAllowAll perms) {k : PermissionType}
    (hk : IsResource k) :
    mergeKind parse perms k = group Permission.kind k (survivors (Covers parse) perms) := by
  have hallow : ∀ q ∈ perms, q.kind ≠ .allowAll := fun q hq he => h ⟨q, hq, he⟩
  have hfilter (survives : Permission → Bool)
      (hs : ∀ p, p.kind = k → (survives p = true ↔ Undominated (Covers parse) perms p)) :
      (perms.filter fun p => p.kind == k).filter survives =
        group Permission.kind k (survivors (Covers parse) perms) := by
    rw [survivors, group, List.filter_comm fun p : Permission => p.kind == k]
    refine List.filter_congr fun p hp => ?_
    have hpk : p.kind = k := by simpa using (List.mem_filter.mp hp).2
    rw [Bool.eq_iff_iff, hs p hpk, all_iff_undominated]
  have hpath (hk' : k = .filesystemRead ∨ k = .filesystemWrite) (p : Permission)
      (hpk : p.kind = k) :=
    hpk ▸ survives_iff parse h (hpk ▸ hk) pathsCoverByAncestor_singleton
      fun q hq => covers_path parse (hallow q hq) (hpk ▸ hk')
  have hurl (hk' : k = .networkAccess) (p : Permission) (hpk : p.kind = k) :=
    hpk ▸ survives_iff parse h (hpk ▸ hk) (urlsCoverByAncestor_singleton parse)
      fun q hq => (hpk.trans hk') ▸ covers_url parse (hallow q hq) (hpk.trans hk')
  obtain rfl | rfl | rfl := hk
  · exact hfilter _ (hpath (Or.inl rfl))
  · exact hfilter _ (hpath (Or.inr rfl))
  · exact hfilter _ (hurl rfl)

theorem merge_allowAll {g : Permissions} (h : HasAllowAll g.permissions) :
    g.merge parse = ⟨[Permission.new .allowAll ""]⟩ :=
  if_pos ((any_allowAll_iff _).mpr h)

theorem not_passesThrough (p : Permission) : passesThrough p = false := by
  unfold passesThrough
  cases p.kind <;> rfl

/-- The kinds `merge` takes in turn. -/
def mergeKinds : List PermissionType := [.filesystemRead, .filesystemWrite, .networkAccess]

theorem mem_mergeKinds {k : PermissionType} : k ∈ mergeKinds ↔ IsResource k := by
  simp [mergeKinds, IsResource]

/-- Without `AllowAll` merging regroups the survivors of the list by kind. -/
theorem merge_permissions {g : Permissions} (h : ¬ HasAllowAll g.permissions) :
    (g.merge parse).permissions =
      regroup Permission.kind mergeKinds (survivors (Covers parse) g.permissions) := by
  have hlast : g.permissions.filter passesThrough = [] :=
    List.filter_eq_nil_iff.mpr fun p _ => by simp [not_passesThrough]
  have hround : mergeKinds.flatMap (mergeKind parse g.permissions) =
      regroup Permission.kind mergeKinds (survivors (Covers parse) g.permissions) :=
    List.flatMap_congr fun k hk => mergeKind_eq parse h (mem_mergeKinds.mp hk)
  rw [← hround, Permissions.merge, any_allowAll_eq_false h, hlast]
  exact List.append_nil _

/-- Without `AllowAll` merging keeps exactly the undominated entries of the resource
kinds; entries of any other number are dropped. -/
theorem mem_merge {g : Permissions} (h : ¬ HasAllowAll g.permissions) (p : Permission) :
    p ∈ (g.merge parse).permissions ↔
      p ∈ g.permissions ∧ IsResource p.kind ∧ Undominated (Covers parse) g.permissions p := by
  rw [merge_permissions parse h, mem_regroup, mem_survivors, mem_mergeKinds]
  tauto

theorem hasAllowAll_merge_iff (g : Permissions) :
    HasAllowAll (g.merge parse).permissions ↔ HasAllowAll g.permissions := by
  constructor
  · intro hm
    by_contra h
    obtain ⟨p, hp, hk⟩ := hm
    exact h ⟨p, ((mem_merge parse h p).mp hp).1, hk⟩
  · intro h
    rw [merge_allowAll parse h]
    exact ⟨_, List.mem_singleton_self _, kind_new _ _⟩

end Sapphillon.Permission
