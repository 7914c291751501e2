import Sapphillon.LeastPrivilege

/-! The type check of an external call against the grants recorded for the function. The
check sees the merged grants, so a type counts only when one of its entries survives the
merge. -/
namespace Sapphillon.GrantTypes
open Coverage ExtPlugin LeastPrivilege Permission Plugin Proto Sapphillon.Runtime Dispatch

/-- The grants recorded under a function name hold `AllowAll` or each declared type. -/
def SufficientlyGranted (ctx : DispatchCtx) (funcName : String) (schema : FunctionSchema) : Prop :=
  AllowAllUnder ctx funcName ∨ ∀ t ∈ schema.requiredPermissionTypes,
    ∃ p, RecordedUnder ctx funcName p ∧ p.permissionType = t

variable (world : World)

/-- A recorded entry of a type that is a resource kind and is covered by no differently
spelled recorded entry of its kind. -/
def TypeSurvives (ctx : DispatchCtx) (funcName : String) (t : Int32) : Prop :=
  ∃ p, RecordedUnder ctx funcName p ∧ p.permissionType = t ∧ IsResource p.kind ∧
    ∀ q, RecordedUnder ctx funcName q → q.kind = p.kind → q.resource ≠ p.resource →
      ¬ Covers world.parseUrl q p

/-- The external call of a key ends in a refusal of the client. -/
def Refused (time : Nat) (ctx : DispatchCtx) (key argsJson : String) : Prop :=
  ∃ pkg funcName package, ctx.internal.lookup key = none ∧
    externalRoute ctx key = some (pkg, funcName) ∧
    (loadPackage world time pkg.wasmPath).result = .ok package ∧
    ∃ func required granted,
      (extpluginClient world.extism world.serde (2 * time + 1) package funcName
        (clientArgs world funcName argsJson) (clientGrants world ctx funcName)).result =
          .error (.permissionDenied func required granted)

/-- A refusal is the error of the dispatched call. -/
theorem dispatchImpl_of_refused {time : Nat} {ctx : DispatchCtx} {key argsJson : String}
    (h : Refused world time ctx key argsJson) :
    ∃ func required granted, (dispatchImpl world time ctx key argsJson).result =
      .error ("extism call failed: " ++
        (ExtPluginError.permissionDenied func required granted).display) := by
  obtain ⟨pkg, funcName, package, hi, hroute, hload, func, required, granted, hdenied⟩ := h
  refine ⟨func, required, granted, ?_⟩
  have hwasm := fromWasmPath_wasmPath world.extism world.serde hload
  simp only [dispatchImpl_external world hi hroute, dispatchExternal, Traced.bind_eq_error,
    Traced.result_mapError, Traced.result_mapEvents, hload]
  right
  refine ⟨package, rfl, Or.inr ⟨(), rfl, Or.inl ?_⟩⟩
  exact Traced.mapError_eq_error.mpr ⟨_, hdenied, rfl⟩

/-- For one external call the refusal is the failure of the type check. -/
theorem refused_iff {time : Nat} {ctx : DispatchCtx} {key funcName : String}
    {pkg : CorePluginExternalPackage} {package : SapphillonPackage} {schema : FunctionSchema}
    (hi : ctx.internal.lookup key = none) (hroute : externalRoute ctx key = some (pkg, funcName))
    (hload : (loadPackage world time pkg.wasmPath).result = .ok package)
    (hschema : package.functions.lookup funcName = some schema) (argsJson : String) :
    Refused world time ctx key argsJson ↔
      checkFunctionPermissions schema (clientGrants world ctx funcName) ≠ .ok () := by
  rw [← extpluginClient_denied_iff world.extism world.serde (2 * time + 1)
    (clientArgs world funcName argsJson) hschema]
  constructor
  · intro h
    obtain ⟨pkg', name, package', _, hroute', hload', hdenied⟩ := h
    obtain ⟨rfl, rfl⟩ := Prod.mk.inj (Option.some.inj (hroute'.symm.trans hroute))
    obtain rfl := Except.ok.inj (hload'.symm.trans hload)
    exact hdenied
  · exact fun h => ⟨pkg, funcName, package, hi, hroute, hload, h⟩

/-- The grants handed to the client hold a type exactly when one of its recorded entries
survives. -/
theorem type_mem_clientGrants_iff {ctx : DispatchCtx} {funcName : String}
    (h : ¬ AllowAllUnder ctx funcName) (t : Int32) :
    (∃ p ∈ clientGrants world ctx funcName, p.permissionType = t) ↔
      TypeSurvives world ctx funcName t := by
  have hall : ¬ HasAllowAll (recorded ctx.allowedPermissions [funcName]) :=
    fun hm => h (hasAllowAll_recorded.mp hm)
  have hmem (p : Permission) : p ∈ clientGrants world ctx funcName ↔
      RecordedUnder ctx funcName p ∧ IsResource p.kind ∧
        Undominated (Covers world.parseUrl) (recorded ctx.allowedPermissions [funcName]) p := by
    rw [← mem_recorded]
    exact mem_merge world.parseUrl (g := ⟨recorded ctx.allowedPermissions [funcName]⟩) hall p
  refine exists_congr fun p => ?_
  rw [hmem]
  constructor
  · intro hp
    obtain ⟨⟨hrec, hk, hu⟩, ht⟩ := hp
    refine ⟨hrec, ht, hk, fun q hq => ?_⟩
    exact (undominated_iff world.parseUrl hall hk).mp hu q (mem_recorded.mpr hq)
  · intro hp
    obtain ⟨hrec, ht, hk, hu⟩ := hp
    refine ⟨⟨hrec, hk, (undominated_iff world.parseUrl hall hk).mpr fun q hq => ?_⟩, ht⟩
    exact hu q (mem_recorded.mp hq)

theorem allowAll_mem_clientGrants_iff (ctx : DispatchCtx) (funcName : String) :
    (∃ p ∈ clientGrants world ctx funcName,
      p.permissionType = PermissionType.allowAll.toI32) ↔ AllowAllUnder ctx funcName := by
  have hkind (p : Permission) :
      p.permissionType = PermissionType.allowAll.toI32 ↔ p.kind = .allowAll :=
    permissionType_eq_toI32_iff p (by simp)
  simp only [hkind, ← hasAllowAll_recorded]
  exact hasAllowAll_merge_iff world.parseUrl ⟨recorded ctx.allowedPermissions [funcName]⟩

theorem check_clientGrants_iff (ctx : DispatchCtx) (funcName : String) (schema : FunctionSchema) :
    checkFunctionPermissions schema (clientGrants world ctx funcName) = .ok () ↔
      AllowAllUnder ctx funcName ∨
        ∀ t ∈ schema.requiredPermissionTypes, TypeSurvives world ctx funcName t := by
  rw [checkFunctionPermissions_ok_iff, allowAll_mem_clientGrants_iff]
  by_cases h : AllowAllUnder ctx funcName
  · simp [h]
  · simp only [h, false_or, type_mem_clientGrants_iff world h]

/-- A sufficiently granted external call is not refused exactly when the recorded grants
hold `AllowAll`, or an entry of each declared type survives the merge. -/
theorem granted_not_refused_iff (time : Nat) (ctx : DispatchCtx) (key funcName : String)
    (pkg : CorePluginExternalPackage) (package : SapphillonPackage) (schema : FunctionSchema)
    (hi : ctx.internal.lookup key = none) (hroute : externalRoute ctx key = some (pkg, funcName))
    (hload : (loadPackage world time pkg.wasmPath).result = .ok package)
    (hschema : package.functions.lookup funcName = some schema) (argsJson : String) :
    (SufficientlyGranted ctx funcName schema → ¬ Refused world time ctx key argsJson) ↔
      (SufficientlyGranted ctx funcName schema → AllowAllUnder ctx funcName ∨
        ∀ t ∈ schema.requiredPermissionTypes, TypeSurvives world ctx funcName t) := by
  rw [refused_iff world hi hroute hload hschema, not_not, check_clientGrants_iff]

theorem granted_not_refused_read :
    ¬ Refused sampleWorld 0 ⟨[], [samplePackage "files" [("files-read", "read")]],
      [⟨"read", ⟨[Permission.new .filesystemRead "/data", ⟨7, ""⟩,
        Permission.new .filesystemRead "/data/x/"]⟩⟩]⟩ "files::read" "\x7b\x7d" := by
  let ctx : DispatchCtx := ⟨[], [samplePackage "files" [("files-read", "read")]],
    [⟨"read", ⟨[Permission.new .filesystemRead "/data", ⟨7, ""⟩,
      Permission.new .filesystemRead "/data/x/"]⟩⟩]⟩
  have hroute : externalRoute ctx "files::read" =
      some (samplePackage "files" [("files-read", "read")], "read") := by decide
  have hdata : RecordedUnder ctx "read" (Permission.new .filesystemRead "/data") :=
    ⟨_, .head _, rfl, .head _⟩
  have hsurvives : TypeSurvives sampleWorld ctx "read" PermissionType.filesystemRead.toI32 := by
    have hother : ∀ q ∈ recorded ctx.allowedPermissions ["read"],
        q.kind = .filesystemRead → q.resource ≠ "/data" →
        ¬ Covers (fun _ => none) q (Permission.new .filesystemRead "/data") := by decide
    exact ⟨_, hdata, rfl, by decide, fun q hq => hother q (mem_recorded.mpr hq)⟩
  refine (granted_not_refused_iff sampleWorld 0 ctx "files::read" "read"
    (samplePackage "files" [("files-read", "read")]) _ ⟨[PermissionType.filesystemRead.toI32]⟩
    rfl hroute (sample_load 0 "files.wasm") rfl "\x7b\x7d").mpr (fun _ => Or.inr ?_) (Or.inr ?_)
  · simpa using hsurvives
  · simpa using ⟨_, hdata, rfl⟩

/-- Two spellings of the granted directory cancel out, and the call is refused; a recorded
custom type does not reach the check at all. -/
theorem granted_refused_aliases :
    let ctx : DispatchCtx := ⟨[], [samplePackage "files" [("files-read", "read")]],
      [⟨"read", ⟨[Permission.new .filesystemRead "/data",
        Permission.new .filesystemRead "/data/"]⟩⟩]⟩
    (SufficientlyGranted ctx "read" ⟨[PermissionType.filesystemRead.toI32]⟩ ∧
      Refused sampleWorld 0 ctx "files::read" "\x7b\x7d") ∧
    checkFunctionPermissions ⟨[7]⟩
      (findAllowedPermissions (fun _ => none) [⟨"f", ⟨[⟨7, ""⟩]⟩⟩] ["f"]).permissions ≠ .ok () := by
  intro ctx
  have hroute : externalRoute ctx "files::read" =
      some (samplePackage "files" [("files-read", "read")], "read") := by decide
  refine ⟨⟨Or.inr ?_, ?_⟩, by decide⟩
  · simpa using ⟨_, (⟨_, .head _, rfl, .head _⟩ :
      RecordedUnder ctx "read" (Permission.new .filesystemRead "/data")), rfl⟩
  · rw [refused_iff sampleWorld rfl hroute (sample_load 0 "files.wasm") rfl]
    decide

end Sapphillon.GrantTypes
