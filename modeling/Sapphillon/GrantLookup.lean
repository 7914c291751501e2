import Sapphillon.Dispatch

/-! Which recorded grants an external call receives. Grants are recorded under function
ids; the dispatcher looks them up under the name behind the separator of the op key. -/
namespace Sapphillon.GrantLookup
open ExtPlugin Permission Plugin Proto Sapphillon.Runtime Dispatch

variable (world : World)

/-- The merge of the entries recorded for one function id. -/
def mergedFor (allowed : List PluginFunctionPermissions) (functionId : String) :
    List Permission :=
  let entries := allowed.filter fun pfp => pfp.pluginFunctionId == functionId
  (Permissions.merge world.parseUrl
    ⟨entries.flatMap fun pfp => pfp.permissions.permissions⟩).permissions

/-- Whenever the call enters the client, it passes this list of grants. -/
def PassesExactly (time : Nat) (ctx : DispatchCtx) (key argsJson : String)
    (expected : List Permission) : Prop :=
  ∀ wasm name args permissions,
    .client wasm name args permissions ∈ (dispatchImpl world time ctx key argsJson).events →
      permissions = expected

/-- The module of a package loads at the moment of the call. -/
def Loads (time : Nat) (wasmPath : String) : Prop :=
  ∃ package, (loadPackage world time wasmPath).result = .ok package

theorem clientGrants_eq (ctx : DispatchCtx) (funcName : String) :
    clientGrants world ctx funcName = mergedFor world ctx.allowedPermissions funcName := by
  simp only [clientGrants, findAllowedPermissions, recorded, mergedFor, List.contains_cons,
    List.contains_nil, Bool.or_false]

/-- An external call passes the grants recorded under the routed name. -/
theorem passesExactly_iff (time : Nat) (ctx : DispatchCtx) {key funcName : String}
    {pkg : CorePluginExternalPackage} (hi : ctx.internal.lookup key = none)
    (hroute : externalRoute ctx key = some (pkg, funcName)) (argsJson : String)
    (expected : List Permission) :
    PassesExactly world time ctx key argsJson expected ↔
      (Loads world time pkg.wasmPath →
        mergedFor world ctx.allowedPermissions funcName = expected) := by
  rw [PassesExactly, dispatchImpl_external world hi hroute, ← clientGrants_eq]
  constructor
  · intro h hload
    exact h _ _ _ _ ((client_mem_dispatchExternal world).mpr ⟨hload, rfl, rfl, rfl, rfl⟩)
  · intro h wasm name args permissions he
    obtain ⟨hload, _, _, _, hgrants⟩ := (client_mem_dispatchExternal world).mp he
    exact hgrants.trans (h hload)

/-- Two ids receive the same grants from every record only when they are one id. -/
theorem mergedFor_forall_eq_iff (name id : String) :
    (∀ allowed, mergedFor world allowed name = mergedFor world allowed id) ↔ name = id := by
  constructor
  · intro h
    by_contra hne
    have hall := h [⟨id, ⟨[Permission.new .allowAll ""]⟩⟩]
    have hid : mergedFor world [⟨id, ⟨[Permission.new .allowAll ""]⟩⟩] id =
        [Permission.new .allowAll ""] := by
      simp [mergedFor, Permissions.merge]
    have hname : mergedFor world [⟨id, ⟨[Permission.new .allowAll ""]⟩⟩] name = [] := by
      simp [mergedFor, Permissions.merge, mergeKind, Ne.symm hne]
    rw [hid, hname] at hall
    cases hall
  · intro he allowed
    obtain rfl := he
    rfl

/-- A call routed to a package passes exactly the grants recorded for a function of it when
they merge to those recorded under the name behind the first separator of the key; for all
records at once, when that name is the function's id. For a key made with the id of the
package the name is the function's own. -/
theorem grants_reach_function_iff (time : Nat) (ctx : DispatchCtx)
    (p : CorePluginExternalPackage) (f : CorePluginExternalFunction) (funcName argsJson : String)
    (hi : ctx.internal.lookup (opKey f.packageId f.name) = none)
    (hroute : externalRoute ctx (opKey f.packageId f.name) = some (p, funcName)) :
    (PassesExactly world time ctx (opKey f.packageId f.name) argsJson
        (mergedFor world ctx.allowedPermissions f.id) ↔
      (Loads world time p.wasmPath →
        mergedFor world ctx.allowedPermissions funcName =
          mergedFor world ctx.allowedPermissions f.id)) ∧
    ((∀ allowed, PassesExactly world time { ctx with allowedPermissions := allowed }
        (opKey f.packageId f.name) argsJson (mergedFor world allowed f.id)) ↔
      (Loads world time p.wasmPath → funcName = f.id)) ∧
    (f.packageId = p.id → funcName = f.name) := by
  have hpass (allowed : List PluginFunctionPermissions) :=
    passesExactly_iff world time { ctx with allowedPermissions := allowed } hi hroute argsJson
      (mergedFor world allowed f.id)
  refine ⟨hpass ctx.allowedPermissions, ?_, funcName_of_route hroute⟩
  simp only [hpass]
  rw [forall_comm]
  exact forall_congr' fun _ => mergedFor_forall_eq_iff world funcName f.id

theorem grants_reach_same_name :
    PassesExactly sampleWorld 0 ⟨[], [samplePackage "files" [("read", "read")]],
        [⟨"read", ⟨[Permission.new .filesystemRead "/data"]⟩⟩]⟩ (opKey "files" "read") "\x7b\x7d"
      (mergedFor sampleWorld [⟨"read", ⟨[Permission.new .filesystemRead "/data"]⟩⟩] "read") :=
  (grants_reach_function_iff sampleWorld 0 ⟨[], [samplePackage "files" [("read", "read")]],
    [⟨"read", ⟨[Permission.new .filesystemRead "/data"]⟩⟩]⟩
    (samplePackage "files" [("read", "read")]) ⟨"read", "read", "", "", "files"⟩ "read"
    "\x7b\x7d" rfl (by decide)).1.mpr fun _ => rfl

/-- The grant of another package's function, whose id is this function's name, is passed,
and the function's own grant is not. -/
theorem grants_reach_other_function :
    let packages := [samplePackage "files" [("files-read", "read")],
      samplePackage "notes" [("read", "open")]]
    let ctx : DispatchCtx := ⟨[], packages,
      [⟨"files-read", ⟨[Permission.new .filesystemRead "/files"]⟩⟩,
        ⟨"read", ⟨[Permission.new .filesystemRead "/notes"]⟩⟩]⟩
    ((packages.flatMap fun p => p.functions).map fun f => f.id).Nodup ∧
      ctx.internal.lookup (opKey "files" "read") = none ∧
      externalRoute ctx (opKey "files" "read") =
        some (samplePackage "files" [("files-read", "read")], "read") ∧
      ¬ PassesExactly sampleWorld 0 ctx (opKey "files" "read") "\x7b\x7d"
        (mergedFor sampleWorld ctx.allowedPermissions "files-read") := by
  intro packages ctx
  have hroute : externalRoute ctx (opKey "files" "read") =
      some (samplePackage "files" [("files-read", "read")], "read") := by decide
  refine ⟨by decide, rfl, hroute, fun h => ?_⟩
  have hgrants := (passesExactly_iff sampleWorld 0 ctx rfl hroute _ _).mp h
    ⟨_, sample_load 0 "files.wasm"⟩
  exact absurd hgrants (by decide)

end Sapphillon.GrantLookup
