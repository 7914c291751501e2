import Sapphillon.ExtPlugin
import Sapphillon.Permission

/-! The two checkers of the program on one pair of lists: `check_permission` compares kinds and
resources, the type check of an external call compares numbers only. -/
namespace Sapphillon.CoarseCheck
open CheckUrl Coverage Permission Proto ExtPlugin

/-- The schema that declares the numbers of a required list. -/
def schemaOf (required : Permissions) : FunctionSchema :=
  ⟨required.permissions.map Permission.permissionType⟩

/-- The declared types no grant has, in order. -/
def typesLacking (granted required : Permissions) : List Int32 :=
  (schemaOf required).requiredPermissionTypes.filter fun t =>
    !granted.permissions.any fun p => p.permissionType == t

theorem mem_typesLacking {granted required : Permissions} {t : Int32} :
    t ∈ typesLacking granted required ↔
      (∃ x ∈ required.permissions, x.permissionType = t) ∧
        ∀ p ∈ granted.permissions, p.permissionType ≠ t := by
  simp [typesLacking, schemaOf]

variable (parse : String → Option Url)

/-- Outside `AllowAll` an entry covers only entries of its own number. -/
theorem permissionType_eq_of_covers {p x : Permission} (h : Covers parse p x)
    (hp : p.kind ≠ .allowAll) : p.permissionType = x.permissionType := by
  have hk : p.kind = x.kind := h.kind_eq parse hp
  by_cases hx : x.kind = .unspecified
  · exact (covers_other parse hp (Or.inr hx)).mp h
  · rw [permissionType_of_kind hk hx, permissionType_of_kind rfl hx]

/-- Accepted requirements have their numbers granted. -/
theorem types_granted {granted required : Permissions}
    (h : checkPermission parse granted required = .ok) :
    checkFunctionPermissions (schemaOf required) granted.permissions = .ok () := by
  rw [checkFunctionPermissions_ok_iff]
  by_cases hall : HasAllowAll granted.permissions
  · obtain ⟨p, hp, hk⟩ := hall
    exact Or.inl ⟨p, hp, permissionType_of_kind hk (by simp)⟩
  · refine Or.inr fun t ht => ?_
    obtain ⟨x, hx, rfl⟩ := List.mem_map.mp ht
    obtain ⟨p, hp, hc⟩ := (checkPermission_ok_iff parse granted required).mp h x hx
    exact ⟨p, hp, permissionType_eq_of_covers parse hc fun he => hall ⟨p, hp, he⟩⟩

/-- A requirement of a number no grant has is reported missing. -/
theorem missing_of_type {granted required m : Permissions}
    (h : checkPermission parse granted required = .missingPermission m) {t : Int32}
    (ht : t ∈ typesLacking granted required) : ∃ x ∈ m.permissions, x.permissionType = t := by
  obtain ⟨hall, _, hm⟩ := checkPermission_missing parse h
  obtain ⟨⟨x, hx, hxt⟩, hnone⟩ := mem_typesLacking.mp ht
  refine ⟨x, ?_, hxt⟩
  rw [hm, List.mem_filter, Bool.not_eq_true', ← Bool.not_eq_true, reqCovered_iff parse hall]
  refine ⟨hx, fun hcovered => ?_⟩
  obtain ⟨p, hp, hc⟩ := hcovered
  exact hnone p hp ((permissionType_eq_of_covers parse hc fun he => hall ⟨p, hp, he⟩).trans hxt)

/-- The check of entries implies the check of types; and a refusal of the type check lists
the declared types no grant has, each of which has an entry in the report of
`check_permission`. -/
theorem fine_check_implies_coarse (granted required : Permissions) :
    (checkPermission parse granted required = .ok →
      checkFunctionPermissions (schemaOf required) granted.permissions = .ok ()) ∧
    ∀ e, checkFunctionPermissions (schemaOf required) granted.permissions = .error e →
      e = .permissionDenied "" ((typesLacking granted required).map typeName)
        (granted.permissions.map fun p => typeName p.permissionType) ∧
      ∃ m, checkPermission parse granted required = .missingPermission m ∧
        ∀ t ∈ typesLacking granted required, ∃ x ∈ m.permissions, x.permissionType = t := by
  refine ⟨types_granted parse, fun e he => ⟨checkFunctionPermissions_report he, ?_⟩⟩
  cases hfine : checkPermission parse granted required with
  | ok =>
    rw [types_granted parse hfine] at he
    cases he
  | missingPermission m => exact ⟨m, rfl, fun t ht => missing_of_type parse hfine ht⟩

theorem fine_check_implies_coarse_sub :
    checkFunctionPermissions (schemaOf ⟨[Permission.new .filesystemRead "/a/b", ⟨7, ""⟩]⟩)
      [⟨7, "x"⟩, Permission.new .filesystemRead "/a"] = .ok () :=
  (fine_check_implies_coarse (fun _ => none) ⟨[⟨7, "x"⟩, Permission.new .filesystemRead "/a"]⟩
    ⟨[Permission.new .filesystemRead "/a/b", ⟨7, ""⟩]⟩).1 (by decide)

end Sapphillon.CoarseCheck
