import Sapphillon.Permission

/-! `check_permission` as an order between permission lists: what is granted may be handed
on, and what is reported missing is exactly what has to be asked for. -/
namespace Sapphillon.Delegation
open CheckUrl Coverage Permission Proto

/-- Accepted requirements compose, and a list whose network resources are URLs covers
itself, for every behaviour of `Url::parse`. -/
theorem checkPermission_preorder (parse : String → Option Url) :
    (∀ a b c : Permissions, checkPermission parse a b = .ok → checkPermission parse b c = .ok →
      checkPermission parse a c = .ok) ∧
    (∀ p : Permissions,
      (∀ x ∈ p.permissions, x.kind = .networkAccess → (parse x.resource).isSome) →
      checkPermission parse p p = .ok) := by
  constructor
  · intro a b c hab hbc
    rw [checkPermission_ok_iff] at hab hbc ⊢
    exact coversAll_trans hab hbc
  · intro p hp
    rw [checkPermission_ok_iff]
    exact coversAll_refl fun x hx => covers_refl parse (hp x hx)

/-- One origin, for the runs below. -/
def parseExample (s : String) : Option Url :=
  if s = "https://a.io/v1" then some ⟨"https", some "a.io", some 443, "/v1"⟩
  else if s = "https://a.io/v1/" then some ⟨"https", some "a.io", some 443, "/v1/"⟩
  else if s = "https://a.io/v1/x" then some ⟨"https", some "a.io", some 443, "/v1/x"⟩
  else none

theorem checkPermission_preorder_example :
    checkPermission parseExample ⟨[Permission.new .networkAccess "https://a.io/v1"]⟩
        ⟨[Permission.new .networkAccess "https://a.io/v1/x"]⟩ = .ok ∧
      checkPermission parseExample ⟨[Permission.new .networkAccess "https://a.io/v1/"]⟩
        ⟨[Permission.new .networkAccess "https://a.io/v1/"]⟩ = .ok :=
  ⟨(checkPermission_preorder parseExample).1 _
      ⟨[Permission.new .networkAccess "https://a.io/v1/"]⟩ _ (by decide) (by decide),
    (checkPermission_preorder parseExample).2 _ (by decide)⟩

/-! ### The report of missing entries -/

variable (parse : String → Option Url)

/-- A requirement passes on its own exactly when its flag is set. -/
theorem checkPermission_singleton_eq {granted : Permissions}
    (h : ¬ HasAllowAll granted.permissions) (x : Permission) :
    checkPermission parse granted ⟨[x]⟩ = .ok ↔ reqCovered parse granted.permissions x = true := by
  rw [checkPermission_singleton_iff, reqCovered_iff parse h]

/-- The report keeps the requirements that do not pass on their own, in their order. -/
theorem missing_eq_filter {granted required m : Permissions}
    (h : checkPermission parse granted required = .missingPermission m) :
    m.permissions =
      required.permissions.filter fun x => checkPermission parse granted ⟨[x]⟩ ≠ .ok := by
  obtain ⟨hall, _, hm⟩ := checkPermission_missing parse h
  rw [hm]
  apply List.filter_congr
  intro x _
  simp [checkPermission_singleton_eq parse hall]

/-- Granting what was reported makes the check pass. -/
theorem missing_suffices {granted required m : Permissions}
    (hurl : ∀ x ∈ required.permissions, x.kind = .networkAccess → (parse x.resource).isSome)
    (h : checkPermission parse granted required = .missingPermission m) :
    checkPermission parse ⟨granted.permissions ++ m.permissions⟩ required = .ok := by
  have hm := missing_eq_filter parse h
  rw [checkPermission_ok_iff]
  apply coversAll_append
  · intro x hx hnot
    rw [← checkPermission_singleton_iff]
    by_contra hno
    apply hnot
    rw [hm]
    exact List.mem_filter.mpr ⟨hx, by simpa using hno⟩
  · intro x hx
    rw [hm] at hx
    exact covers_refl parse (hurl x (List.mem_filter.mp hx).1)

/-- A report of missing entries is not empty, keeps the order of the requirements, holds
exactly those that do not pass on their own, and suffices; when all pass on their own,
there is none. -/
theorem missing_report_exact (granted required : Permissions)
    (hurl : ∀ x ∈ required.permissions, x.kind = .networkAccess → (parse x.resource).isSome) :
    (∀ m, checkPermission parse granted required = .missingPermission m →
      m.permissions ≠ [] ∧ m.permissions.Sublist required.permissions ∧
      (∀ x ∈ required.permissions,
        x ∈ m.permissions ↔ checkPermission parse granted ⟨[x]⟩ ≠ .ok) ∧
      checkPermission parse ⟨granted.permissions ++ m.permissions⟩ required = .ok) ∧
    ((∀ x ∈ required.permissions, checkPermission parse granted ⟨[x]⟩ = .ok) →
      checkPermission parse granted required = .ok) := by
  constructor
  · intro m h
    obtain ⟨_, hne, _⟩ := checkPermission_missing parse h
    have hm := missing_eq_filter parse h
    refine ⟨hne, hm ▸ List.filter_sublist, fun x hx => ?_, missing_suffices parse hurl h⟩
    rw [hm, List.mem_filter]
    simp [hx]
  · intro h
    rw [checkPermission_ok_iff]
    intro x hx
    exact (checkPermission_singleton_iff parse granted x).mp (h x hx)

/-- `AllowAll` and an unknown number are reported like the rest, and suffice once granted. -/
theorem missing_report_example :
    checkPermission parseExample ⟨[Permission.new .networkAccess "https://a.io/v1/", ⟨9, ""⟩,
        Permission.new .allowAll "", Permission.new .filesystemRead "/a/../b"]⟩
      ⟨[Permission.new .networkAccess "https://a.io/v1/x", ⟨9, ""⟩,
        Permission.new .allowAll "", Permission.new .filesystemRead "/a/../b"]⟩ = .ok :=
  ((missing_report_exact parseExample ⟨[Permission.new .networkAccess "https://a.io/v1/"]⟩
    ⟨[Permission.new .networkAccess "https://a.io/v1/x", ⟨9, ""⟩, Permission.new .allowAll "",
      Permission.new .filesystemRead "/a/../b"]⟩ (by decide)).1
    ⟨[⟨9, ""⟩, Permission.new .allowAll "", Permission.new .filesystemRead "/a/../b"]⟩
    (by decide)).2.2.2

end Sapphillon.Delegation
