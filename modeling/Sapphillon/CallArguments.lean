import Sapphillon.Dispatch

/-! The arguments of a dispatched call. Both ways to a handler read the text of the arguments
and put a default in its place when they cannot: `null` for an internal function, no
arguments for an external one. -/
namespace Sapphillon.CallArguments
open ExtPlugin Plugin Proto Sapphillon.Runtime Dispatch

/-- Two lists of fields stand for one JSON object. -/
def SameFields (fields fields' : List (String × Json)) : Prop :=
  ∀ key, fields.lookup key = fields'.lookup key

/-- The reader of maps reads the objects among the JSON texts, and nothing else. -/
structure ReadsObjects (serde : Serde) : Prop where
  sound : ∀ s args, serde.indexMap s = .ok args →
    ∃ fields, serde.value s = .ok (.object fields) ∧ SameFields args fields
  complete : ∀ s fields, serde.value s = .ok (.object fields) → ∃ args, serde.indexMap s = .ok args

variable (world : World)

/-- A handler that runs gets the value its argument text stands for, and a call that reaches
no handler fails. -/
structure ArgsIntact (time : Nat) (ctx : DispatchCtx) (key argsJson : String) : Prop where
  internal : ∀ id args,
    .internalCall id args ∈ (dispatchImpl world time ctx key argsJson).events →
      world.serde.value argsJson = .ok args
  external : ∀ c, .run c ∈ (dispatchImpl world time ctx key argsJson).events →
    ∃ wasm args permissions fields,
      .client wasm c.exportName args permissions ∈
        (dispatchImpl world time ctx key argsJson).events ∧
      world.serde.ofBridgeArgs args = .ok c.input ∧
      world.serde.value argsJson = .ok (.object fields) ∧ SameFields args.args fields
  failed : (∀ id args,
      .internalCall id args ∉ (dispatchImpl world time ctx key argsJson).events) →
    (∀ c, .run c ∉ (dispatchImpl world time ctx key argsJson).events) →
    ∃ e, (dispatchImpl world time ctx key argsJson).result = .error e

/-- An external call that gets as far as its export: the module loads and knows the
function, the declared types are granted, the plugin is built and the input is written. -/
def ReachesExport (time : Nat) (ctx : DispatchCtx) (key argsJson : String) : Prop :=
  ∃ pkg funcName package schema input, ctx.internal.lookup key = none ∧
    externalRoute ctx key = some (pkg, funcName) ∧
    (loadPackage world time pkg.wasmPath).result = .ok package ∧
    package.functions.lookup funcName = some schema ∧
    checkFunctionPermissions schema (clientGrants world ctx funcName) = .ok () ∧
    world.extism.new (2 * time + 1) (buildManifest package (clientGrants world ctx funcName)) =
      .ok () ∧
    world.serde.ofBridgeArgs (clientArgs world funcName argsJson) = .ok input

theorem reachesExport_iff (time : Nat) (ctx : DispatchCtx) (key argsJson : String) :
    (∃ c, .run c ∈ (dispatchImpl world time ctx key argsJson).events) ↔
      ReachesExport world time ctx key argsJson := by
  simp only [run_mem_dispatchImpl, mem_extpluginClient]
  constructor
  · intro h
    obtain ⟨_, pkg, funcName, package, hi, hroute, hload, schema, input, hschema, hcheck, hnew,
      hinput, _⟩ := h
    exact ⟨pkg, funcName, package, schema, input, hi, hroute, hload, hschema, hcheck, hnew, hinput⟩
  · intro h
    obtain ⟨pkg, funcName, package, schema, input, hi, hroute, hload, hschema, hcheck, hnew,
      hinput⟩ := h
    exact ⟨_, pkg, funcName, package, hi, hroute, hload, schema, input, hschema, hcheck, hnew,
      hinput, rfl⟩

/-- The client of a call that reached the export was entered with the arguments written
into its input. -/
theorem client_of_run {time : Nat} {ctx : DispatchCtx} {key argsJson : String} {c : WasmCall}
    (h : .run c ∈ (dispatchImpl world time ctx key argsJson).events) :
    ∃ wasm permissions, .client wasm c.exportName (clientArgs world c.exportName argsJson)
        permissions ∈ (dispatchImpl world time ctx key argsJson).events ∧
      world.serde.ofBridgeArgs (clientArgs world c.exportName argsJson) = .ok c.input := by
  obtain ⟨pkg, funcName, package, hi, hroute, hload, hc⟩ := (run_mem_dispatchImpl world).mp h
  obtain ⟨schema, input, _, _, _, hinput, rfl⟩ := (mem_extpluginClient _ _).mp hc
  refine ⟨pkg.wasmPath, clientGrants world ctx funcName, ?_, hinput⟩
  rw [dispatchImpl_external world hi hroute]
  exact (client_mem_dispatchExternal world).mpr ⟨⟨package, hload⟩, rfl, rfl, rfl, rfl⟩

/-- A call that answers invoked a handler. -/
theorem invoked_of_ok {time : Nat} {ctx : DispatchCtx} {key argsJson s : String}
    (h : (dispatchImpl world time ctx key argsJson).result = .ok s) :
    (∃ id args, .internalCall id args ∈ (dispatchImpl world time ctx key argsJson).events) ∨
      ∃ c, .run c ∈ (dispatchImpl world time ctx key argsJson).events := by
  cases hi : ctx.internal.lookup key with
  | some func =>
    exact Or.inl ⟨_, _, (internalCall_mem_dispatchImpl world).mpr ⟨func, hi, rfl, rfl⟩⟩
  | none =>
    cases hroute : externalRoute ctx key with
    | none =>
      rw [dispatchImpl_unknown world hi hroute] at h
      cases h
    | some route =>
      rw [dispatchImpl_external world hi hroute] at h
      obtain ⟨package, returns, hload, hreturns⟩ := dispatchExternal_ok world h
      obtain ⟨c, hc⟩ := extpluginClient_ok _ _ hreturns
      exact Or.inr ⟨c, (run_mem_dispatchImpl world).mpr
        ⟨route.1, route.2, package, hi, hroute, hload, hc⟩⟩

theorem error_of_not_invoked {time : Nat} {ctx : DispatchCtx} {key argsJson : String}
    (hno : ∀ id args, .internalCall id args ∉ (dispatchImpl world time ctx key argsJson).events)
    (hnorun : ∀ c, .run c ∉ (dispatchImpl world time ctx key argsJson).events) :
    ∃ e, (dispatchImpl world time ctx key argsJson).result = .error e := by
  cases hr : (dispatchImpl world time ctx key argsJson).result with
  | error e => exact ⟨e, rfl⟩
  | ok s =>
    obtain ⟨id, args, he⟩ | ⟨c, hc⟩ := invoked_of_ok world hr
    · exact absurd he (hno id args)
    · exact absurd hc (hnorun c)

/-- Where the text is an object the map passed on has its fields. -/
theorem clientArgs_sameFields (hserde : ReadsObjects world.serde) (funcName : String)
    {argsJson : String} {fields : List (String × Json)}
    (h : world.serde.value argsJson = .ok (.object fields)) :
    SameFields (clientArgs world funcName argsJson).args fields := by
  obtain ⟨args, hargs⟩ := hserde.complete argsJson fields h
  obtain ⟨fields', hfields', hsame⟩ := hserde.sound argsJson args hargs
  obtain rfl : fields' = fields := by simpa [h, eq_comm] using hfields'
  simpa only [clientArgs, hargs, Except.toOption, Option.getD_some] using hsame

/-- The readers of the argument texts that occur below. -/
def textSerde : Serde :=
  { sampleSerde with
    value := fun s =>
      if s = "\x7b\x7d" then .ok (.object [])
      else if s = "[1,2]" then .ok (.array [.number (.posInt 1), .number (.posInt 2)])
      else .error "EOF while parsing an object at line 1 column 1"
    indexMap := fun s =>
      if s = "\x7b\x7d" then .ok []
      else if s = "[1,2]" then .error "invalid type: sequence, expected a map"
      else .error "EOF while parsing an object at line 1 column 1" }

theorem textSerde_readsObjects : ReadsObjects textSerde := by
  constructor
  case sound =>
    intro s args h
    simp only [textSerde] at h ⊢
    split_ifs at h with hs
    obtain rfl := Except.ok.inj h
    exact ⟨[], by simp [hs], fun _ => rfl⟩
  case complete =>
    intro s fields h
    simp only [textSerde] at h ⊢
    split_ifs at h with hs
    · exact ⟨[], by simp [hs]⟩
    · cases Except.ok.inj h

def textWorld : World := ⟨sampleExtism, textSerde, fun _ => none⟩

/-- A workflow with one internal function `f`, which gives its arguments back, and the
package `files`, whose function may read `/data`. -/
def textCtx : DispatchCtx where
  internal := [("f", ⟨"f", "f", fun _ args => .ok args, none⟩)]
  external := [samplePackage "files" [("files-read", "read")]]
  allowedPermissions := [⟨"read", ⟨[Permission.new .filesystemRead "/data"]⟩⟩]

end Sapphillon.CallArguments
