import Sapphillon.Dispatch
import Sapphillon.Capabilities

/-! The external call path as a whole: what the grants recorded under a function name must
hold before its export is called, and what its manifest can contain. -/
namespace Sapphillon.LeastPrivilege
open StdPath Proto Permission ExtPlugin Capabilities Plugin Sapphillon.Runtime Dispatch

/-- A grant recorded under a function name. -/
def RecordedUnder (ctx : DispatchCtx) (funcName : String) (p : Permission) : Prop :=
  ∃ pfp ∈ ctx.allowedPermissions, pfp.pluginFunctionId = funcName ∧ p ∈ pfp.permissions.permissions

def AllowAllUnder (ctx : DispatchCtx) (funcName : String) : Prop :=
  ∃ p, RecordedUnder ctx funcName p ∧ p.permissionType = PermissionType.allowAll.toI32

/-- The resource of a recorded filesystem grant, or the root for a recorded `AllowAll`. -/
def PathGranted (ctx : DispatchCtx) (funcName : String) (path : PathBuf) : Prop :=
  (∃ p, RecordedUnder ctx funcName p ∧ (p.kind = .filesystemRead ∨ p.kind = .filesystemWrite) ∧
    path = PathBuf.ofString p.resource) ∨
  path = PathBuf.ofString "/" ∧ AllowAllUnder ctx funcName

/-- The resource of a recorded network grant, or the wildcard for a recorded `AllowAll`. -/
def HostGranted (ctx : DispatchCtx) (funcName : String) (host : String) : Prop :=
  (∃ p, RecordedUnder ctx funcName p ∧ p.kind = .networkAccess ∧ host = p.resource) ∨
  host = "*" ∧ AllowAllUnder ctx funcName

theorem mem_recorded {ctx : DispatchCtx} {funcName : String} {p : Permission} :
    p ∈ recorded ctx.allowedPermissions [funcName] ↔ RecordedUnder ctx funcName p := by
  simp [recorded, RecordedUnder, and_assoc]

theorem hasAllowAll_recorded {ctx : DispatchCtx} {funcName : String} :
    HasAllowAll (recorded ctx.allowedPermissions [funcName]) ↔ AllowAllUnder ctx funcName := by
  simp only [HasAllowAll, AllowAllUnder, mem_recorded]
  refine exists_congr fun p => and_congr_right fun _ => ?_
  exact (permissionType_eq_toI32_iff p (by simp)).symm

variable (world : World)

/-- A grant handed to the client was recorded, or stands for a recorded `AllowAll`. -/
theorem mem_clientGrants {ctx : DispatchCtx} {funcName : String} {p : Permission}
    (h : p ∈ clientGrants world ctx funcName) :
    RecordedUnder ctx funcName p ∨
      p = Permission.new .allowAll "" ∧ AllowAllUnder ctx funcName := by
  by_cases hall : HasAllowAll (recorded ctx.allowedPermissions [funcName])
  · have hmerge : Permissions.merge world.parseUrl ⟨recorded ctx.allowedPermissions [funcName]⟩ =
        ⟨[Permission.new .allowAll ""]⟩ := merge_allowAll world.parseUrl hall
    rw [clientGrants, findAllowedPermissions, hmerge] at h
    exact Or.inr ⟨List.mem_singleton.mp h, hasAllowAll_recorded.mp hall⟩
  · exact Or.inl (mem_recorded.mp ((mem_merge _ hall p).mp h).1)

theorem allowAllUnder_of_recorded {ctx : DispatchCtx} {funcName : String} {p : Permission}
    (hp : RecordedUnder ctx funcName p) (hk : p.kind = .allowAll) : AllowAllUnder ctx funcName :=
  ⟨p, hp, permissionType_of_kind hk (by simp)⟩

theorem pathGranted_of_grantPath {ctx : DispatchCtx} {funcName : String} {p : Permission}
    {path : PathBuf} (hp : p ∈ clientGrants world ctx funcName)
    (hpath : grantPath p = some path) : PathGranted ctx funcName path := by
  cases mem_clientGrants world hp with
  | inl hrec =>
    cases grantPath_eq_some.mp hpath with
    | inl hroot => exact Or.inr ⟨hroot.2, allowAllUnder_of_recorded hrec hroot.1⟩
    | inr hres => exact Or.inl ⟨p, hrec, hres.1, hres.2⟩
  | inr hall =>
    obtain ⟨rfl, hall⟩ := hall
    exact Or.inr ⟨by simpa [grantPath_eq_some] using hpath, hall⟩

theorem hostGranted_of_grantHost {ctx : DispatchCtx} {funcName : String} {p : Permission}
    {host : String} (hp : p ∈ clientGrants world ctx funcName)
    (hhost : grantHost p = some host) : HostGranted ctx funcName host := by
  cases mem_clientGrants world hp with
  | inl hrec =>
    cases grantHost_eq_some.mp hhost with
    | inl hstar => exact Or.inr ⟨hstar.2, allowAllUnder_of_recorded hrec hstar.1⟩
    | inr hres => exact Or.inl ⟨p, hrec, hres.1, hres.2⟩
  | inr hall =>
    obtain ⟨rfl, hall⟩ := hall
    exact Or.inr ⟨by simpa [grantHost_eq_some] using hhost, hall⟩

/-- What the type check lets through, told by the recorded grants. -/
theorem types_recorded {ctx : DispatchCtx} {funcName : String} {schema : FunctionSchema}
    (h : checkFunctionPermissions schema (clientGrants world ctx funcName) = .ok ()) :
    AllowAllUnder ctx funcName ∨
      ∀ t ∈ schema.requiredPermissionTypes,
        ∃ p, RecordedUnder ctx funcName p ∧ p.permissionType = t := by
  by_cases hall : AllowAllUnder ctx funcName
  · exact Or.inl hall
  have hrec {p : Permission} (hp : p ∈ clientGrants world ctx funcName) :
      RecordedUnder ctx funcName p :=
    (mem_clientGrants world hp).resolve_right fun h => hall h.2
  cases (checkFunctionPermissions_ok_iff schema _).mp h with
  | inl h =>
    obtain ⟨p, hp, ht⟩ := h
    exact absurd ⟨p, hrec hp, ht⟩ hall
  | inr h =>
    refine Or.inr fun t ht => ?_
    obtain ⟨p, hp, hpt⟩ := h t ht
    exact ⟨p, hrec hp, hpt⟩

/-- An export called through the client is the routed function of the routed module, its
declared types are met by the grants recorded under its name, and its manifest opens
nothing but what these grants name. -/
theorem external_call_least_privilege (time : Nat) (ctx : DispatchCtx) (opKey argsJson : String)
    (c : WasmCall) (h : .run c ∈ (dispatchImpl world time ctx opKey argsJson).events) :
    ∃ pkg package schema, externalRoute ctx opKey = some (pkg, c.exportName) ∧
      (loadPackage world time pkg.wasmPath).result = .ok package ∧
      package.functions.lookup c.exportName = some schema ∧
      c.manifest.wasm = pkg.wasmPath ∧
      (AllowAllUnder ctx c.exportName ∨
        ∀ t ∈ schema.requiredPermissionTypes,
          ∃ p, RecordedUnder ctx c.exportName p ∧ p.permissionType = t) ∧
      (∀ paths, c.manifest.allowedPaths = some paths → ∀ e ∈ paths.entries,
        PathGranted ctx c.exportName e.1 ∧ PathGranted ctx c.exportName e.2) ∧
      ∀ hosts, c.manifest.allowedHosts = some hosts → ∀ host ∈ hosts,
        HostGranted ctx c.exportName host := by
  obtain ⟨func, _, he⟩ | ⟨pkg, funcName, _, hroute, he⟩ := mem_dispatchImpl world h
  · cases he
  obtain ⟨package, hload, hc'⟩ := (run_mem_dispatchExternal world).mp he
  obtain ⟨⟨schema, hschema, hcheck⟩, hmanifest, rfl⟩ := extpluginClient_events _ _ hc'
  refine ⟨pkg, package, schema, hroute, hload, hschema, ?_, types_recorded world hcheck, ?_, ?_⟩
  · rw [hmanifest]
    exact fromWasmPath_wasmPath _ _ hload
  · intro paths hpaths e hmem
    rw [hmanifest] at hpaths
    rw [buildManifest_allowedPaths hpaths] at hmem
    obtain ⟨⟨p, hp, hkey⟩, ⟨q, hq, hval⟩, _⟩ := mem_paths hmem
    exact ⟨pathGranted_of_grantPath world hp hkey, pathGranted_of_grantPath world hq hval⟩
  · intro hosts hhosts host hmem
    rw [hmanifest] at hhosts
    rw [buildManifest_allowedHosts hhosts] at hmem
    obtain ⟨p, hp, hhost⟩ := mem_hosts.mp hmem
    exact hostGranted_of_grantHost world hp hhost

/-- A read grant recorded under `read` opens the call of `read`, and its directory only. -/
theorem external_call_read :
    ∃ c, .run c ∈ (dispatchImpl sampleWorld 0
        ⟨[], [samplePackage "files" [("files-read", "read")]],
          [⟨"read", ⟨[Permission.new .filesystemRead "/data"]⟩⟩]⟩ "files::read" "\x7b\x7d").events ∧
      c.exportName = "read" ∧
      ∀ paths, c.manifest.allowedPaths = some paths → ∀ e ∈ paths.entries,
        PathGranted ⟨[], [samplePackage "files" [("files-read", "read")]],
          [⟨"read", ⟨[Permission.new .filesystemRead "/data"]⟩⟩]⟩ "read" e.1 := by
  let pkg := samplePackage "files" [("files-read", "read")]
  let ctx : DispatchCtx := ⟨[], [pkg], [⟨"read", ⟨[Permission.new .filesystemRead "/data"]⟩⟩]⟩
  have hroute : externalRoute ctx "files::read" = some (pkg, "read") := by decide
  have hcheck : checkFunctionPermissions ⟨[PermissionType.filesystemRead.toI32]⟩
      (clientGrants sampleWorld ctx "read") = .ok () := by rfl
  have hrun := sample_run hcheck (2 * 0 + 1) pkg.wasmPath
    (clientArgs sampleWorld "read" "\x7b\x7d")
  have h : .run _ ∈ (dispatchExternal sampleWorld 0 ctx pkg "read" "\x7b\x7d").events :=
    (run_mem_dispatchExternal sampleWorld).mpr ⟨_, sample_load 0 pkg.wasmPath, hrun⟩
  rw [← dispatchImpl_external sampleWorld rfl hroute] at h
  obtain ⟨_, _, _, _, _, _, _, _, hpaths, _⟩ :=
    external_call_least_privilege sampleWorld 0 ctx "files::read" "\x7b\x7d" _ h
  exact ⟨_, h, rfl, fun paths hp e he => (hpaths paths hp e he).1⟩

end Sapphillon.LeastPrivilege
