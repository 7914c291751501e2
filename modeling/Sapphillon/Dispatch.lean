import Sapphillon.Runtime

/-! What a dispatched call does: one lemma for each way through `dispatchImpl`, and the
events each of them can leave. -/
namespace Sapphillon.Dispatch
open StdStr ExtPlugin Permission Plugin Proto Sapphillon.Runtime

variable (world : World)

/-- The grants handed to the client for a function name. -/
def clientGrants (ctx : DispatchCtx) (funcName : String) : List Permission :=
  (findAllowedPermissions world.parseUrl ctx.allowedPermissions [funcName]).permissions

def clientArgs (funcName argsJson : String) : RsJsBridgeArgs :=
  ⟨funcName, (world.serde.indexMap argsJson).toOption.getD []⟩

theorem toList_opKey (pkg func : String) :
    (opKey pkg func).toList = pkg.toList ++ [':', ':'] ++ func.toList := by
  simp [opKey]

theorem splitOpKey_eq_some {key pkgId funcName : String} :
    splitOpKey key = some (pkgId, funcName) ↔
      splitOnce [':', ':'] key.toList = some (pkgId.toList, funcName.toList) := by
  have hsep : "::".toList = [':', ':'] := by decide
  simp only [splitOpKey, hsep, Option.map_eq_some_iff, Prod.exists, Prod.mk.injEq]
  constructor
  · intro h
    obtain ⟨l, r, hs, rfl, rfl⟩ := h
    simpa using hs
  · intro hs
    exact ⟨_, _, hs, by simp, by simp⟩

/-- The two parts of a split key are right together: either both or none. -/
theorem splitOpKey_opKey {pkg func pkgId funcName : String}
    (h : splitOpKey (opKey pkg func) = some (pkgId, funcName)) :
    pkgId = pkg ↔ funcName = func := by
  have hparts := splitOnce_eq_append (splitOpKey_eq_some.mp h)
  rw [toList_opKey] at hparts
  constructor
  · intro he
    obtain rfl := he
    exact (String.toList_inj.mp (List.append_cancel_left hparts)).symm
  · intro he
    obtain rfl := he
    have hleft := List.append_cancel_right (List.append_cancel_right hparts)
    exact (String.toList_inj.mp hleft).symm

/-- The package an op key is routed to, with the function name behind the separator. -/
def externalRoute (ctx : DispatchCtx) (opKey : String) :
    Option (CorePluginExternalPackage × String) := do
  let (pkgId, funcName) ← splitOpKey opKey
  let pkg ← ctx.external.find? fun p => p.id == pkgId
  return (pkg, funcName)

theorem externalRoute_eq_some {ctx : DispatchCtx} {opKey funcName : String}
    {pkg : CorePluginExternalPackage} :
    externalRoute ctx opKey = some (pkg, funcName) ↔
      ∃ pkgId, splitOpKey opKey = some (pkgId, funcName) ∧
        ctx.external.find? (fun p => p.id == pkgId) = some pkg := by
  simp only [externalRoute, Option.bind_eq_bind, Option.bind_eq_some_iff, Option.pure_def,
    Option.some.injEq, Prod.mk.injEq, Prod.exists]
  constructor
  · intro h
    obtain ⟨pkgId, name, hs, p, hf, rfl, rfl⟩ := h
    exact ⟨pkgId, hs, hf⟩
  · intro h
    obtain ⟨pkgId, hs, hf⟩ := h
    exact ⟨pkgId, funcName, hs, pkg, hf, rfl, rfl⟩

/-- A key made with the id of the package it is routed to is routed to its function name. -/
theorem funcName_of_route {ctx : DispatchCtx} {packageId name funcName : String}
    {pkg : CorePluginExternalPackage}
    (hroute : externalRoute ctx (opKey packageId name) = some (pkg, funcName))
    (hid : packageId = pkg.id) : funcName = name := by
  obtain ⟨pkgId, hs, hfind⟩ := externalRoute_eq_some.mp hroute
  have hpkg : pkg.id = pkgId := by simpa using List.find?_some hfind
  exact (splitOpKey_opKey hs).mp (hpkg.symm.trans hid.symm)

theorem dispatchImpl_internal {time : Nat} {ctx : DispatchCtx} {opKey : String}
    {func : InternalFnRef} (h : ctx.internal.lookup opKey = some func) (argsJson : String) :
    dispatchImpl world time ctx opKey argsJson = dispatchInternal world time func argsJson := by
  simp [dispatchImpl, h]

theorem dispatchImpl_external {time : Nat} {ctx : DispatchCtx} {opKey funcName : String}
    {pkg : CorePluginExternalPackage} (h : ctx.internal.lookup opKey = none)
    (hroute : externalRoute ctx opKey = some (pkg, funcName)) (argsJson : String) :
    dispatchImpl world time ctx opKey argsJson =
      dispatchExternal world time ctx pkg funcName argsJson := by
  obtain ⟨pkgId, hs, hf⟩ := externalRoute_eq_some.mp hroute
  simp [dispatchImpl, h, hs, hf]

theorem dispatchImpl_unknown {time : Nat} {ctx : DispatchCtx} {opKey : String}
    (h : ctx.internal.lookup opKey = none) (hroute : externalRoute ctx opKey = none)
    (argsJson : String) :
    dispatchImpl world time ctx opKey argsJson = unknownOpKey opKey := by
  unfold dispatchImpl
  rw [h]
  cases hs : splitOpKey opKey with
  | none => rfl
  | some parts =>
    cases hf : ctx.external.find? fun p => p.id == parts.1 with
    | none => simp [hf]
    | some pkg =>
      have : externalRoute ctx opKey = some (pkg, parts.2) :=
        externalRoute_eq_some.mpr ⟨parts.1, hs, hf⟩
      simp [hroute] at this

/-- The events of an external call: the load, and behind a load that succeeded the entry
into the client and the client's own call. -/
theorem mem_dispatchExternal {time : Nat} {ctx : DispatchCtx} {pkg : CorePluginExternalPackage}
    {funcName argsJson : String} {e : DispatchEvent} :
    e ∈ (dispatchExternal world time ctx pkg funcName argsJson).events ↔
      (∃ c ∈ (loadPackage world time pkg.wasmPath).events, e = .load c) ∨
      ∃ package, (loadPackage world time pkg.wasmPath).result = .ok package ∧
        (e = .client pkg.wasmPath funcName (clientArgs world funcName argsJson)
            (clientGrants world ctx funcName) ∨
          ∃ c ∈ (extpluginClient world.extism world.serde (2 * time + 1) package funcName
            (clientArgs world funcName argsJson) (clientGrants world ctx funcName)).events,
            e = .run c) := by
  simp only [dispatchExternal, Traced.mem_bind, Traced.events_mapError, Traced.events_mapEvents,
    Traced.result_mapError, Traced.result_mapEvents, Traced.mapError_eq_ok, Traced.events_emit,
    Traced.result_emit, Traced.events_lift, List.not_mem_nil, and_false, exists_false, or_false,
    List.mem_singleton, List.mem_map, true_and, exists_const]
  refine or_congr (by simp only [eq_comm]) (exists_congr fun package => and_congr_right fun hp => ?_)
  rw [fromWasmPath_wasmPath world.extism world.serde hp]
  simp only [clientArgs, clientGrants, eq_comm (a := e)]

/-! One kind of event at a time. -/

theorem load_mem_dispatchExternal {time : Nat} {ctx : DispatchCtx}
    {pkg : CorePluginExternalPackage} {funcName argsJson : String} {c : WasmCall} :
    .load c ∈ (dispatchExternal world time ctx pkg funcName argsJson).events ↔
      c ∈ (loadPackage world time pkg.wasmPath).events := by
  simp [mem_dispatchExternal]

theorem client_mem_dispatchExternal {time : Nat} {ctx : DispatchCtx}
    {pkg : CorePluginExternalPackage} {funcName argsJson wasm name : String}
    {args : RsJsBridgeArgs} {permissions : List Permission} :
    .client wasm name args permissions ∈
        (dispatchExternal world time ctx pkg funcName argsJson).events ↔
      (∃ package, (loadPackage world time pkg.wasmPath).result = .ok package) ∧
        wasm = pkg.wasmPath ∧ name = funcName ∧ args = clientArgs world funcName argsJson ∧
        permissions = clientGrants world ctx funcName := by
  simp [mem_dispatchExternal]

theorem run_mem_dispatchExternal {time : Nat} {ctx : DispatchCtx}
    {pkg : CorePluginExternalPackage} {funcName argsJson : String} {c : WasmCall} :
    .run c ∈ (dispatchExternal world time ctx pkg funcName argsJson).events ↔
      ∃ package, (loadPackage world time pkg.wasmPath).result = .ok package ∧
        c ∈ (extpluginClient world.extism world.serde (2 * time + 1) package funcName
          (clientArgs world funcName argsJson) (clientGrants world ctx funcName)).events := by
  simp [mem_dispatchExternal]

theorem internalCall_not_mem_dispatchExternal {time : Nat} {ctx : DispatchCtx}
    {pkg : CorePluginExternalPackage} {funcName argsJson id : String} {args : Json} :
    .internalCall id args ∉ (dispatchExternal world time ctx pkg funcName argsJson).events := by
  simp [mem_dispatchExternal]

/-- Every event comes from the internal function of the key, or from the external call the
key is routed to. -/
theorem mem_dispatchImpl {time : Nat} {ctx : DispatchCtx} {opKey argsJson : String}
    {e : DispatchEvent} (h : e ∈ (dispatchImpl world time ctx opKey argsJson).events) :
    (∃ func, ctx.internal.lookup opKey = some func ∧
      e = .internalCall func.id ((world.serde.value argsJson).toOption.getD .null)) ∨
    ∃ pkg funcName, ctx.internal.lookup opKey = none ∧
      externalRoute ctx opKey = some (pkg, funcName) ∧
      e ∈ (dispatchExternal world time ctx pkg funcName argsJson).events := by
  cases hi : ctx.internal.lookup opKey with
  | some func =>
    rw [dispatchImpl_internal world hi] at h
    simp only [dispatchInternal, Traced.mem_bind, Traced.events_emit, Traced.events_lift] at h
    exact Or.inl ⟨func, rfl, by simpa using h⟩
  | none =>
    cases hr : externalRoute ctx opKey with
    | none =>
      rw [dispatchImpl_unknown world hi hr] at h
      cases h
    | some route =>
      rw [dispatchImpl_external world hi hr] at h
      exact Or.inr ⟨route.1, route.2, rfl, rfl, h⟩

theorem internalCall_mem_dispatchImpl {time : Nat} {ctx : DispatchCtx}
    {opKey argsJson id : String} {args : Json} :
    .internalCall id args ∈ (dispatchImpl world time ctx opKey argsJson).events ↔
      ∃ func, ctx.internal.lookup opKey = some func ∧ id = func.id ∧
        args = (world.serde.value argsJson).toOption.getD .null := by
  constructor
  · intro h
    obtain ⟨func, hi, he⟩ | ⟨_, _, _, _, he⟩ := mem_dispatchImpl world h
    · obtain ⟨rfl, rfl⟩ := DispatchEvent.internalCall.inj he
      exact ⟨func, hi, rfl, rfl⟩
    · exact absurd he (internalCall_not_mem_dispatchExternal world)
  · intro h
    obtain ⟨func, hi, rfl, rfl⟩ := h
    rw [dispatchImpl_internal world hi]
    exact Traced.mem_bind.mpr (Or.inl (.head _))

theorem run_mem_dispatchImpl {time : Nat} {ctx : DispatchCtx} {opKey argsJson : String}
    {c : WasmCall} :
    .run c ∈ (dispatchImpl world time ctx opKey argsJson).events ↔
      ∃ pkg funcName package, ctx.internal.lookup opKey = none ∧
        externalRoute ctx opKey = some (pkg, funcName) ∧
        (loadPackage world time pkg.wasmPath).result = .ok package ∧
        c ∈ (extpluginClient world.extism world.serde (2 * time + 1) package funcName
          (clientArgs world funcName argsJson) (clientGrants world ctx funcName)).events := by
  constructor
  · intro h
    obtain ⟨_, _, he⟩ | ⟨pkg, funcName, hi, hroute, he⟩ := mem_dispatchImpl world h
    · cases he
    · obtain ⟨package, hload, hc⟩ := (run_mem_dispatchExternal world).mp he
      exact ⟨pkg, funcName, package, hi, hroute, hload, hc⟩
  · intro h
    obtain ⟨pkg, funcName, package, hi, hroute, hload, hc⟩ := h
    rw [dispatchImpl_external world hi hroute]
    exact (run_mem_dispatchExternal world).mpr ⟨package, hload, hc⟩

/-- An external call that answers has a loaded package and an answer of the client. -/
theorem dispatchExternal_ok {time : Nat} {ctx : DispatchCtx} {pkg : CorePluginExternalPackage}
    {funcName argsJson s : String}
    (h : (dispatchExternal world time ctx pkg funcName argsJson).result = .ok s) :
    ∃ package returns, (loadPackage world time pkg.wasmPath).result = .ok package ∧
      (extpluginClient world.extism world.serde (2 * time + 1) package funcName
        (clientArgs world funcName argsJson) (clientGrants world ctx funcName)).result =
          .ok returns := by
  simp only [dispatchExternal, Traced.bind_eq_ok, Traced.result_mapError, Traced.result_mapEvents,
    Traced.mapError_eq_ok] at h
  obtain ⟨package, hload, _, _, returns, hreturns, _⟩ := h
  exact ⟨package, returns, hload, hreturns⟩

/-! ### A world for calls on given inputs -/

def sampleDescriptor : String :=
  "\x7b\"meta\":\x7b\"name\":\"files\",\"version\":\"1\",\"description\":\"\"," ++
    "\"author_id\":\"\",\"package_id\":\"files\"\x7d,\"functions\":\x7b\"read\":\x7b" ++
    "\"required_permission_types\":[4],\"description\":\"\",\"parameters\":[]," ++
    "\"returns\":[]\x7d\x7d\x7d"

/-- A module with one export `read` that wants a filesystem read grant and answers with
no fields. -/
def sampleExtism : Extism where
  new _ _ := .ok ()
  call _ _ exportName _ :=
    if exportName = "describe" then .ok sampleDescriptor
    else if exportName = "read" then .ok "\x7b\"args\":\x7b\x7d\x7d"
    else .error ("function not found: " ++ exportName)

/-- The readers and writers, right on the texts and values that occur in these calls. -/
def sampleSerde : Serde where
  value _ := .ok (.object [])
  indexMap _ := .ok []
  packageDescriptor _ := .ok ⟨[("read", ⟨[PermissionType.filesystemRead.toI32]⟩)]⟩
  bridgeReturns _ := .ok ⟨[]⟩
  ofValue _ := .ok "\x7b\x7d"
  ofIndexMap _ := .ok "\x7b\x7d"
  ofBridgeArgs args :=
    .ok ("\x7b\"func_name\":\"" ++ args.funcName ++ "\",\"args\":\x7b\x7d\x7d")

def sampleWorld : World := ⟨sampleExtism, sampleSerde, fun _ => none⟩

def samplePackage (id : String) (functions : List (String × String)) :
    CorePluginExternalPackage where
  id := id
  name := id
  functions := functions.map fun (funcId, name) => ⟨funcId, name, "", "", id⟩
  wasmPath := id ++ ".wasm"

theorem sample_load (time : Nat) (wasmPath : String) :
    (loadPackage sampleWorld time wasmPath).result =
      .ok ⟨[("read", ⟨[PermissionType.filesystemRead.toI32]⟩)], wasmPath⟩ := rfl

/-- With its type granted the export `read` is called. -/
theorem sample_run {permissions : List Permission}
    (h : checkFunctionPermissions ⟨[PermissionType.filesystemRead.toI32]⟩ permissions = .ok ())
    (time : Nat) (wasmPath : String) (args : RsJsBridgeArgs) :
    ⟨buildManifest ⟨[("read", ⟨[PermissionType.filesystemRead.toI32]⟩)], wasmPath⟩ permissions,
        "read", "\x7b\"func_name\":\"" ++ args.funcName ++ "\",\"args\":\x7b\x7d\x7d"⟩ ∈
      (extpluginClient sampleExtism sampleSerde time
        ⟨[("read", ⟨[PermissionType.filesystemRead.toI32]⟩)], wasmPath⟩ "read" args
          permissions).events := by
  simp [extpluginClient, h, Traced.mem_bind, sampleExtism, sampleSerde, Except.mapError]

end Sapphillon.Dispatch
