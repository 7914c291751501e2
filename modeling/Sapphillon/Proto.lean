import Mathlib.Tactic.TypeStar

/-! `proto`: the permission types with their numeric values, and the workflow records. -/
namespace Sapphillon.Proto

inductive PermissionType where
  | unspecified
  | allowAll
  | filesystemRead
  | filesystemWrite
  | networkAccess
deriving DecidableEq, Repr

def PermissionType.toI32 : PermissionType → Int32
  | .unspecified => 0
  | .allowAll => 1
  | .filesystemRead => 4
  | .filesystemWrite => 5
  | .networkAccess => 6

/-- Every other number is read as `unspecified`. -/
def PermissionType.fromI32 (v : Int32) : PermissionType :=
  if v = 1 then .allowAll
  else if v = 4 then .filesystemRead
  else if v = 5 then .filesystemWrite
  else if v = 6 then .networkAccess
  else .unspecified

structure Permission where
  permissionType : Int32
  resource : String
deriving DecidableEq, Repr

def Permission.new (permissionType : PermissionType) (resource : String) : Permission :=
  ⟨permissionType.toI32, resource⟩

def Permission.kind (p : Permission) : PermissionType := PermissionType.fromI32 p.permissionType

inductive WorkflowStatus where
  | ok
  | error
deriving DecidableEq, Repr

def WorkflowStatus.toI32 : WorkflowStatus → Int32
  | .ok => 0
  | .error => 1

structure WorkflowResult where
  status : Int32
  stdout : String
  durationMs : Int64
  errorMessage : String
deriving DecidableEq, Repr

structure WorkflowCode where
  id : String
  code : String
  codeRevision : Int32
deriving DecidableEq, Repr

theorem fromI32_toI32 (k : PermissionType) : PermissionType.fromI32 k.toI32 = k := by
  cases k <;> decide

@[simp] theorem kind_new (k : PermissionType) (resource : String) :
    (Permission.new k resource).kind = k := fromI32_toI32 k

/-- A named kind determines the number it was read from. -/
theorem toI32_fromI32 {v : Int32} (h : PermissionType.fromI32 v ≠ .unspecified) :
    (PermissionType.fromI32 v).toI32 = v := by
  unfold PermissionType.fromI32 at h ⊢
  split
  · simp [*, PermissionType.toI32]
  · split
    · simp [*, PermissionType.toI32]
    · split
      · simp [*, PermissionType.toI32]
      · split
        · simp [*, PermissionType.toI32]
        · simp_all

theorem permissionType_of_kind {p : Permission} {k : PermissionType} (h : p.kind = k)
    (hk : k ≠ .unspecified) : p.permissionType = k.toI32 := by
  subst h
  exact (toI32_fromI32 hk).symm

/-- A named kind is told by its number. -/
theorem permissionType_eq_toI32_iff (p : Permission) {k : PermissionType}
    (hk : k ≠ .unspecified) : p.permissionType = k.toI32 ↔ p.kind = k := by
  constructor
  · intro h
    rw [Permission.kind, h]
    exact fromI32_toI32 k
  · exact fun h => permissionType_of_kind h hk

theorem kind_eq_of_permissionType_eq {p q : Permission} (h : p.permissionType = q.permissionType) :
    p.kind = q.kind := congrArg PermissionType.fromI32 h

/-- Entries of one named kind differ only in their resource. -/
theorem eq_iff_resource_eq {p q : Permission} (h : p.kind = q.kind)
    (hk : p.kind ≠ .unspecified) : p = q ↔ p.resource = q.resource := by
  have ht : p.permissionType = q.permissionType :=
    (permissionType_of_kind rfl hk).trans (permissionType_of_kind h.symm hk).symm
  constructor
  · intro he
    obtain rfl := he
    rfl
  · intro hr
    cases p
    cases q
    simp_all

end Sapphillon.Proto
