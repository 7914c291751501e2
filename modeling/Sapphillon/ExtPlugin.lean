import Sapphillon.Proto
import Sapphillon.StdPath
import Sapphillon.OrderedMap
import Sapphillon.Traced
import Sapphillon.Json
import Mathlib.Data.Prod.Lex
import Mathlib.Data.List.Lex
import Mathlib.Data.Char

/-! `ext_plugin`: grants turned into sandbox capabilities, the check of the declared
permission types, and the call of a WASM export. Extism and `serde_json` are parameters;
whatever they answer may change from one moment to the next. -/
namespace Sapphillon.ExtPlugin
open StdPath Proto

/-! ### The path map -/

def rankComponent : Component → ℕ ×ₗ List Char
  | .rootDir => toLex (1, [])
  | .curDir => toLex (2, [])
  | .parentDir => toLex (3, [])
  | .normal name => toLex (4, name)

/-- `PathBuf` keys are ordered, and equated, by their components. -/
def rankPath (p : PathBuf) : List (ℕ ×ₗ List Char) := p.components.map rankComponent

/-- `BTreeMap<PathBuf, PathBuf>`. -/
abbrev PathMap := OrderedMap PathBuf PathBuf rankPath

/-- One round of the loop in `permissions_to_wasi`. -/
def wasiStep (acc : PathMap × List String) (perm : Permission) : PathMap × List String :=
  match perm.kind with
  | .allowAll =>
    (acc.1.insert (PathBuf.ofString "/") (PathBuf.ofString "/"), acc.2 ++ ["*"])
  | .filesystemRead | .filesystemWrite =>
    let p := PathBuf.ofString perm.resource
    (acc.1.insert p p, acc.2)
  | .networkAccess => (acc.1, acc.2 ++ [perm.resource])
  | .unspecified => acc

def permissionsToWasi (permissions : List Permission) : PathMap × List String :=
  permissions.foldl wasiStep (OrderedMap.empty, [])

/-! ### Errors and descriptors -/

inductive ExtPluginError where
  | extism (msg : String)
  | serde (msg : String)
  | functionNotFound (name : String)
  | permissionDenied (func : String) (required granted : List String)
  | invalidDescriptor (msg : String)
deriving DecidableEq, Repr

/-- `{:?}` of a list of texts that need no escapes, as the type names below. -/
def debugTexts (texts : List String) : String :=
  "[" ++ ", ".intercalate (texts.map fun t => "\"" ++ t ++ "\"") ++ "]"

def ExtPluginError.display : ExtPluginError → String
  | .extism msg => "extism plugin error: " ++ msg
  | .serde msg => "serialization error: " ++ msg
  | .functionNotFound name => "function not found in package: " ++ name
  | .permissionDenied func required granted =>
    "permission denied: function '" ++ func ++ "' requires " ++ debugTexts required ++
      " but only " ++ debugTexts granted ++ " were granted"
  | .invalidDescriptor msg => "invalid package descriptor: " ++ msg

/-- The part of a function's schema the host reads. -/
structure FunctionSchema where
  requiredPermissionTypes : List Int32
deriving DecidableEq, Repr

structure PackageDescriptor where
  functions : List (String × FunctionSchema)

structure SapphillonPackage where
  functions : List (String × FunctionSchema)
  wasmPath : String

structure RsJsBridgeArgs where
  funcName : String
  args : List (String × Json)

structure RsJsBridgeReturns where
  args : List (String × Json)

/-! ### The sandbox -/

structure Manifest where
  wasm : String
  allowedPaths : Option PathMap
  allowedHosts : Option (List String)

/-- `Manifest::new([Wasm::file(path)])`. -/
def Manifest.new (wasm : String) : Manifest := ⟨wasm, none, none⟩

/-- The Extism runtime: `Plugin::new` and `Plugin::call`, at a moment. -/
structure Extism where
  new : Nat → Manifest → Except String Unit
  call : Nat → Manifest → (exportName input : String) → Except String String

/-- The `serde_json` readers and writers of the typed values. -/
structure Serde where
  value : String → Except String Json
  indexMap : String → Except String (List (String × Json))
  packageDescriptor : String → Except String PackageDescriptor
  bridgeReturns : String → Except String RsJsBridgeReturns
  ofValue : Json → Except String String
  ofIndexMap : List (String × Json) → Except String String
  ofBridgeArgs : RsJsBridgeArgs → Except String String

/-- A call of a plugin's export, under the manifest the plugin was built from. -/
structure WasmCall where
  manifest : Manifest
  exportName : String
  input : String

variable (extism : Extism) (serde : Serde)

def SapphillonPackage.fromWasmPath (time : Nat) (wasmPath : String) :
    Traced WasmCall ExtPluginError SapphillonPackage := do
  let manifest := Manifest.new wasmPath
  Traced.lift ((extism.new time manifest).mapError .extism)
  Traced.emit ⟨manifest, "describe", ""⟩
  let raw ← Traced.lift ((extism.call time manifest "describe" "").mapError .extism)
  let descriptor ← Traced.lift ((serde.packageDescriptor raw).mapError .invalidDescriptor)
  return ⟨descriptor.functions, wasmPath⟩

def typeName (t : Int32) : String := "PermissionType(" ++ toString t.toInt ++ ")"

def checkFunctionPermissions (schema : FunctionSchema) (granted : List Permission) :
    Except ExtPluginError Unit :=
  let grantedTypes := granted.map Permission.permissionType
  if grantedTypes.contains PermissionType.allowAll.toI32 then .ok ()
  else
    let missing := (schema.requiredPermissionTypes.filter fun required =>
      !grantedTypes.contains required).map typeName
    if missing.isEmpty then .ok ()
    else .error (.permissionDenied "" missing (grantedTypes.map typeName))

/-- The caller fills in the function's name. -/
def nameDenied (funcName : String) : ExtPluginError → ExtPluginError
  | .permissionDenied _ required granted => .permissionDenied funcName required granted
  | other => other

/-- The manifest of a call: the module and what the grants allow. -/
def buildManifest (package : SapphillonPackage) (permissions : List Permission) : Manifest :=
  let (allowedPaths, allowedHosts) := permissionsToWasi permissions
  { wasm := package.wasmPath
    allowedPaths := if allowedPaths.isEmpty then none else some allowedPaths
    allowedHosts := if allowedHosts.isEmpty then none else some allowedHosts }

def extpluginClient (time : Nat) (package : SapphillonPackage) (funcName : String)
    (args : RsJsBridgeArgs) (permissions : List Permission) :
    Traced WasmCall ExtPluginError RsJsBridgeReturns := do
  let schema ← Traced.lift <| match package.functions.lookup funcName with
    | some schema => .ok schema
    | none => .error (.functionNotFound funcName)
  Traced.lift ((checkFunctionPermissions schema permissions).mapError (nameDenied funcName))
  let manifest := buildManifest package permissions
  Traced.lift ((extism.new time manifest).mapError .extism)
  let inputJson ← Traced.lift ((serde.ofBridgeArgs args).mapError .serde)
  Traced.emit ⟨manifest, funcName, inputJson⟩
  let outputRaw ← Traced.lift ((extism.call time manifest funcName inputJson).mapError .extism)
  Traced.lift ((serde.bridgeReturns outputRaw).mapError .serde)

/-! ### One lemma for each function -/

/-- Loading calls `describe` only, under a manifest that opens nothing. -/
theorem fromWasmPath_events {time : Nat} {wasmPath : String} {c : WasmCall}
    (h : c ∈ (SapphillonPackage.fromWasmPath extism serde time wasmPath).events) :
    c = ⟨Manifest.new wasmPath, "describe", ""⟩ := by
  simp only [SapphillonPackage.fromWasmPath, Traced.mem_bind, Traced.events_lift,
    List.not_mem_nil, false_or] at h
  obtain ⟨_, _, h⟩ := h
  simpa using h

/-- Loading calls `describe` at most once, and once when it succeeds. -/
theorem fromWasmPath_trace (time : Nat) (wasmPath : String) :
    (SapphillonPackage.fromWasmPath extism serde time wasmPath).events =
        [⟨Manifest.new wasmPath, "describe", ""⟩] ∨
      (SapphillonPackage.fromWasmPath extism serde time wasmPath).events = [] ∧
        ∀ package, (SapphillonPackage.fromWasmPath extism serde time wasmPath).result ≠ .ok package := by
  have hlen : (SapphillonPackage.fromWasmPath extism serde time wasmPath).events.length ≤ 1 := by
    refine Traced.length_events_lift_bind _ fun _ => Traced.length_events_emit_bind _ ?_
    refine Traced.length_events_lift_bind _ fun raw => ?_
    exact Traced.length_events_lift_bind _ fun descriptor => Nat.le_refl 0
  cases hevents : (SapphillonPackage.fromWasmPath extism serde time wasmPath).events with
  | nil =>
    refine Or.inr ⟨rfl, fun package h => ?_⟩
    simp only [SapphillonPackage.fromWasmPath, Traced.bind_eq_ok] at h
    obtain ⟨u, hnew, _⟩ := h
    have hmem : ⟨Manifest.new wasmPath, "describe", ""⟩ ∈
        (SapphillonPackage.fromWasmPath extism serde time wasmPath).events :=
      Traced.mem_bind.mpr (Or.inr ⟨u, hnew, Traced.mem_bind.mpr (Or.inl (.head _))⟩)
    simp [hevents] at hmem
  | cons c rest =>
    have hmem : c ∈ (SapphillonPackage.fromWasmPath extism serde time wasmPath).events := by
      rw [hevents]
      exact .head _
    have hc := fromWasmPath_events extism serde hmem
    have hrest : rest = [] := by
      rw [hevents, List.length_cons] at hlen
      exact List.eq_nil_of_length_eq_zero (by omega)
    exact Or.inl (by rw [hc, hrest])

theorem fromWasmPath_wasmPath {time : Nat} {wasmPath : String} {package : SapphillonPackage}
    (h : (SapphillonPackage.fromWasmPath extism serde time wasmPath).result = .ok package) :
    package.wasmPath = wasmPath := by
  simp only [SapphillonPackage.fromWasmPath, Traced.bind_eq_ok] at h
  obtain ⟨_, _, _, _, _, _, descriptor, _, hp⟩ := h
  obtain rfl : ⟨descriptor.functions, wasmPath⟩ = package := by simpa using hp
  rfl

/-- The type check passes with `AllowAll`, or with every required number granted. -/
theorem checkFunctionPermissions_ok_iff (schema : FunctionSchema) (granted : List Permission) :
    checkFunctionPermissions schema granted = .ok () ↔
      (∃ p ∈ granted, p.permissionType = PermissionType.allowAll.toI32) ∨
        ∀ t ∈ schema.requiredPermissionTypes, ∃ p ∈ granted, p.permissionType = t := by
  have hmem (t : Int32) : (granted.map Permission.permissionType).contains t = true ↔
      ∃ p ∈ granted, p.permissionType = t := by
    simp
  unfold checkFunctionPermissions
  simp only [hmem]
  split
  · rename_i h
    exact iff_of_true rfl (Or.inl h)
  · rename_i h
    rw [or_iff_right h]
    split
    · rename_i hm
      refine iff_of_true rfl fun t ht => (hmem t).mp ?_
      by_contra hno
      simp_all
    · rename_i hm
      refine iff_of_false (by simp) fun hall => hm ?_
      have hnone : (schema.requiredPermissionTypes.filter fun required =>
          !(granted.map Permission.permissionType).contains required) = [] :=
        List.filter_eq_nil_iff.mpr fun t ht => by rw [(hmem t).mpr (hall t ht)]; decide
      rw [hnone]
      rfl

/-- A refusal lists the required types no grant has, in order, and the granted types. -/
theorem checkFunctionPermissions_report {schema : FunctionSchema} {granted : List Permission}
    {e : ExtPluginError} (h : checkFunctionPermissions schema granted = .error e) :
    e = .permissionDenied ""
      ((schema.requiredPermissionTypes.filter fun t =>
        !granted.any fun p => p.permissionType == t).map typeName)
      (granted.map fun p => typeName p.permissionType) := by
  have hcontains (t : Int32) : (granted.map Permission.permissionType).contains t =
      granted.any fun p => p.permissionType == t := by
    rw [Bool.eq_iff_iff]
    simp
  simp only [checkFunctionPermissions, hcontains, List.map_map] at h
  split at h
  · cases h
  · split at h
    · cases h
    · exact (Except.error.inj h).symm

/-- The type check fails in one way. -/
theorem checkFunctionPermissions_error {schema : FunctionSchema} {granted : List Permission}
    {e : ExtPluginError} (h : checkFunctionPermissions schema granted = .error e) :
    ∃ required types, e = .permissionDenied "" required types :=
  ⟨_, _, checkFunctionPermissions_report h⟩

/-- The client calls one export, once the function is found, its declared types are checked,
the plugin is built and the arguments are written. -/
theorem mem_extpluginClient {time : Nat} {package : SapphillonPackage} {funcName : String}
    {args : RsJsBridgeArgs} {permissions : List Permission} {c : WasmCall} :
    c ∈ (extpluginClient extism serde time package funcName args permissions).events ↔
      ∃ schema input, package.functions.lookup funcName = some schema ∧
        checkFunctionPermissions schema permissions = .ok () ∧
        extism.new time (buildManifest package permissions) = .ok () ∧
        serde.ofBridgeArgs args = .ok input ∧
        c = ⟨buildManifest package permissions, funcName, input⟩ := by
  cases hschema : package.functions.lookup funcName with
  | none => simp [extpluginClient, hschema]
  | some schema =>
    simp only [extpluginClient, hschema, Traced.lift_ok_bind, Traced.mem_bind, Traced.events_lift,
      Traced.result_lift, Traced.events_emit, Traced.mapError_eq_ok, List.not_mem_nil, false_or,
      and_false, exists_false, or_false, List.mem_singleton, Option.some.injEq, exists_and_left,
      exists_eq_left']
    constructor
    · intro h
      obtain ⟨_, hcheck, _, hnew, hinput⟩ := h
      exact ⟨hcheck, hnew, hinput⟩
    · intro h
      obtain ⟨hcheck, hnew, hinput⟩ := h
      exact ⟨(), hcheck, (), hnew, hinput⟩

/-- The client makes at most one call. -/
theorem extpluginClient_trace (time : Nat) (package : SapphillonPackage) (funcName : String)
    (args : RsJsBridgeArgs) (permissions : List Permission) :
    (extpluginClient extism serde time package funcName args permissions).events.length ≤ 1 := by
  refine Traced.length_events_lift_bind _ fun schema => ?_
  refine Traced.length_events_lift_bind _ fun _ => ?_
  refine Traced.length_events_lift_bind _ fun _ => ?_
  refine Traced.length_events_lift_bind _ fun input => Traced.length_events_emit_bind _ ?_
  exact Traced.length_events_lift_bind _ fun output => Nat.le_refl 0

/-- An answer of the client comes from a call it made. -/
theorem extpluginClient_ok {time : Nat} {package : SapphillonPackage} {funcName : String}
    {args : RsJsBridgeArgs} {permissions : List Permission} {returns : RsJsBridgeReturns}
    (h : (extpluginClient extism serde time package funcName args permissions).result =
      .ok returns) :
    ∃ c, c ∈ (extpluginClient extism serde time package funcName args permissions).events := by
  simp only [extpluginClient, Traced.bind_eq_ok, Traced.result_lift, Traced.mapError_eq_ok] at h
  obtain ⟨schema, hschema, _, hcheck, _, hnew, input, hinput, _⟩ := h
  refine ⟨_, (mem_extpluginClient extism serde).mpr ⟨schema, input, ?_, hcheck, hnew, hinput, rfl⟩⟩
  cases hl : package.functions.lookup funcName with
  | none => simp [hl] at hschema
  | some found => simpa [hl] using hschema

theorem extpluginClient_events {time : Nat} {package : SapphillonPackage} {funcName : String}
    {args : RsJsBridgeArgs} {permissions : List Permission} {c : WasmCall}
    (h : c ∈ (extpluginClient extism serde time package funcName args permissions).events) :
    (∃ schema, package.functions.lookup funcName = some schema ∧
      checkFunctionPermissions schema permissions = .ok ()) ∧
    c.manifest = buildManifest package permissions ∧ c.exportName = funcName := by
  obtain ⟨schema, input, hschema, hcheck, _, _, rfl⟩ := (mem_extpluginClient extism serde).mp h
  exact ⟨⟨schema, hschema, hcheck⟩, rfl, rfl⟩

/-- The client denies a function it knows exactly when the type check fails. -/
theorem extpluginClient_denied_iff (time : Nat) {package : SapphillonPackage} {funcName : String}
    (args : RsJsBridgeArgs) {permissions : List Permission} {schema : FunctionSchema}
    (hschema : package.functions.lookup funcName = some schema) :
    (∃ func required granted,
      (extpluginClient extism serde time package funcName args permissions).result =
        .error (.permissionDenied func required granted)) ↔
      checkFunctionPermissions schema permissions ≠ .ok () := by
  simp only [extpluginClient, hschema, Traced.lift_ok_bind]
  constructor
  · intro h hok
    obtain ⟨func, required, granted, h⟩ := h
    simp [hok, Traced.bind_eq_error] at h
  · intro h
    cases hc : checkFunctionPermissions schema permissions with
    | error e =>
      obtain ⟨required, types, rfl⟩ := checkFunctionPermissions_error hc
      exact ⟨funcName, required, types, rfl⟩
    | ok u => exact absurd hc h
end Sapphillon.ExtPlugin
