import Sapphillon.TraceGuard
import Sapphillon.ContextLifetime
import Sapphillon.LeastPrivilege
import Sapphillon.WorkflowRuns

/-! Everything the dispatcher does along whole runs. The engine only sees an opaque pointer
and its own calls; put together with `dispatch_impl` these calls give the trace of a run, of a
workflow and of a process, and what holds of one call is carried to all of them. -/
namespace Sapphillon.RunTrace
open TraceGuard StepRun ExtPlugin JsInterface JsEngine Plugin Proto Permission Capabilities JsonText
open Sapphillon.Runtime Dispatch LeastPrivilege Workflow WorkflowRuns

variable (world : World)

/-! ### Two views of a run -/

/-- What the dispatcher does behind the calls the engine made, the first of them at a moment. -/
def dispatched (time : Nat) : List (CtxEvent DispatchCtx) → List DispatchEvent
  | [] => []
  | .call ctx opKey argsJson :: events =>
    (dispatchImpl world time ctx opKey argsJson).events ++ dispatched (time + 1) events
  | .drop _ :: events => dispatched time events

/-- The host function with the dispatcher's work in its own trace. -/
def dispatchHostInlined (ctx : DispatchCtx) (time : Nat) (input : String) :
    Traced DispatchEvent String String := do
  let req ← Traced.lift (world.serde.value input)
  let opKey := ((req.field? "op_key").bind Json.asStr?).getD ""
  let argsJson := ((req.field? "args_json").bind Json.asStr?).getD "\x7b\x7d"
  let result ← (dispatchImpl world time ctx opKey argsJson).attempt
  Traced.lift (world.serde.ofValue (envelope result))

/-- The run of the engine module without the pointer in between. -/
def runGuestInlined (ctx : DispatchCtx) (time : Nat) : Guest → Traced DispatchEvent String String
  | .finish outcome => Traced.lift outcome
  | .dispatch input resume => do
    let reply ← dispatchHostInlined world ctx time input
    runGuestInlined ctx (time + 1) (resume reply)

/-- One callback makes at most one call, and a callback that answers makes exactly one. -/
theorem dispatchHost_inlined (ctx : DispatchCtx) (time : Nat) (input : String) :
    let host := sapphillonDispatchHost world.serde ⟨ctx, dispatchCall world⟩ time input
    dispatchHostInlined world ctx time input = ⟨dispatched world time host.events, host.result⟩ ∧
      ∀ reply, host.result = .ok reply → ∃ opKey argsJson, host.events = [.call ctx opKey argsJson] := by
  cases hreq : world.serde.value input with
  | error e =>
    simp only [dispatchHostInlined, sapphillonDispatchHost, hreq, Traced.lift_error_bind]
    exact ⟨rfl, fun reply h => by cases h⟩
  | ok req =>
    simp only [dispatchHostInlined, sapphillonDispatchHost, hreq, Traced.lift_ok_bind]
    exact ⟨rfl, fun reply _ => ⟨_, _, rfl⟩⟩

/-- With the work of `dispatch_impl` put in the place of each call through the pointer a run
ends in the same way. -/
theorem runGuestInlined_eq (ctx : DispatchCtx) (time : Nat) (g : Guest) :
    runGuestInlined world ctx time g =
      ⟨dispatched world time (runGuest world.serde ⟨ctx, dispatchCall world⟩ time g).events,
        (runGuest world.serde ⟨ctx, dispatchCall world⟩ time g).result⟩ := by
  induction g generalizing time with
  | finish outcome => rfl
  | dispatch input resume ih =>
    obtain ⟨hhost, hcall⟩ := dispatchHost_inlined world ctx time input
    rw [runGuestInlined, runGuest, hhost]
    cases hr : (sapphillonDispatchHost world.serde ⟨ctx, dispatchCall world⟩ time input).result with
    | error e =>
      rw [Traced.bind_error _ hr]
      rfl
    | ok reply =>
      obtain ⟨opKey, argsJson, hevents⟩ := hcall reply hr
      rw [Traced.bind_ok _ hr, hevents]
      refine (Traced.bind_ok _ rfl).trans ?_
      rw [ih reply (time + 1)]
      exact Traced.ext (by simp [dispatched]) rfl

/-- The exported function without the pointer in between. -/
def runScriptInlined (plugin : EnginePlugin) (time : Nat) (script : String)
    (preScripts : List String) (ctx : DispatchCtx) : Traced DispatchEvent String String := do
  Traced.lift (plugin.new.mapError ("failed to load JS engine plugin: " ++ ·))
  let inputStr ← Traced.lift ((world.serde.ofValue (scriptInput script preScripts)).mapError
    ("failed to serialise script input: " ++ ·))
  runGuestInlined world ctx time (plugin.call inputStr)

theorem dispatched_append_drop (time : Nat) (events : List (CtxEvent DispatchCtx))
    (ctx : DispatchCtx) : dispatched world time (events ++ [.drop ctx]) = dispatched world time events := by
  induction events generalizing time with
  | nil => rfl
  | cons e events ih =>
    cases e with
    | call ctx' opKey argsJson => simp only [List.cons_append, dispatched, ih]
    | drop ctx' => simp only [List.cons_append, dispatched, ih]

/-- A run of the exported function ends as if `dispatch_impl` stood in the place of the
pointer, and does what `dispatch_impl` does on the calls the engine made, in their order. -/
theorem runScriptInlined_eq (plugin : EnginePlugin) (time : Nat) (script : String)
    (preScripts : List String) (ctx : DispatchCtx) :
    let outside := runScriptImpl world.serde plugin time script preScripts ⟨ctx, dispatchCall world⟩
    runScriptInlined world plugin time script preScripts ctx =
      ⟨dispatched world time outside.events, outside.result⟩ := by
  intro outside
  cases hnew : plugin.new with
  | error e => simp [outside, runScriptInlined, runScriptImpl, hnew, Except.mapError, dispatched]
  | ok u =>
    cases hinput : world.serde.ofValue (scriptInput script preScripts) with
    | error e =>
      simp [outside, runScriptInlined, runScriptImpl, hnew, hinput, Except.mapError, dispatched]
    | ok inputStr =>
      simp only [outside, runScriptInlined, runScriptImpl, hnew, hinput, Except.mapError,
        Traced.lift_ok_bind, runGuestInlined_eq]
      cases hr : (runGuest world.serde ⟨ctx, dispatchCall world⟩ time (plugin.call inputStr)).result with
      | error e => rw [Traced.bind_error _ hr]
      | ok stdout =>
        rw [Traced.bind_ok _ hr]
        exact Traced.ext (dispatched_append_drop world time _ ctx).symm rfl

/-! ### The trace of one call -/

/-- The events of a dispatched call, by how far it gets. -/
inductive CallTrace (time : Nat) (ctx : DispatchCtx) (key argsJson : String) :
    List DispatchEvent → Prop where
  | nothing : CallTrace time ctx key argsJson []
  | handled (func : InternalFnRef) (hlookup : ctx.internal.lookup key = some func) :
      CallTrace time ctx key argsJson
        [.internalCall func.id ((world.serde.value argsJson).toOption.getD .null)]
  | described (pkg : CorePluginExternalPackage) (funcName : String)
      (hroute : externalRoute ctx key = some (pkg, funcName)) :
      CallTrace time ctx key argsJson [.load ⟨Manifest.new pkg.wasmPath, "describe", ""⟩]
  | entered (pkg : CorePluginExternalPackage) (funcName : String) (package : SapphillonPackage)
      (hroute : externalRoute ctx key = some (pkg, funcName))
      (hload : (loadPackage world time pkg.wasmPath).result = .ok package) :
      CallTrace time ctx key argsJson
        [.load ⟨Manifest.new pkg.wasmPath, "describe", ""⟩,
          .client pkg.wasmPath funcName (clientArgs world funcName argsJson)
            (clientGrants world ctx funcName)]
  | ran (pkg : CorePluginExternalPackage) (funcName : String) (package : SapphillonPackage)
      (c : WasmCall) (hroute : externalRoute ctx key = some (pkg, funcName))
      (hload : (loadPackage world time pkg.wasmPath).result = .ok package)
      (hc : c ∈ (extpluginClient world.extism world.serde (2 * time + 1) package funcName
        (clientArgs world funcName argsJson) (clientGrants world ctx funcName)).events) :
      CallTrace time ctx key argsJson
        [.load ⟨Manifest.new pkg.wasmPath, "describe", ""⟩,
          .client pkg.wasmPath funcName (clientArgs world funcName argsJson)
            (clientGrants world ctx funcName), .run c]

/-- Behind a load that succeeded stand the entry into the client and the client's call. -/
theorem dispatchExternal_events_ok {time : Nat} {ctx : DispatchCtx}
    {pkg : CorePluginExternalPackage} {package : SapphillonPackage}
    (hload : (loadPackage world time pkg.wasmPath).result = .ok package)
    (funcName argsJson : String) :
    (dispatchExternal world time ctx pkg funcName argsJson).events =
      (loadPackage world time pkg.wasmPath).events.map .load ++
        .client pkg.wasmPath funcName (clientArgs world funcName argsJson)
            (clientGrants world ctx funcName) ::
          (extpluginClient world.extism world.serde (2 * time + 1) package funcName
            (clientArgs world funcName argsJson) (clientGrants world ctx funcName)).events.map
              .run := by
  have hok : (((loadPackage world time pkg.wasmPath).mapEvents DispatchEvent.load).mapError
      fun e => "failed to load wasm '" ++ pkg.wasmPath ++ "': " ++ e.display).result =
        .ok package := by
    simp [hload, Except.mapError]
  simp only [dispatchExternal]
  rw [Traced.bind_ok _ hok, Traced.bind_ok _ (Traced.result_emit _), Traced.events_bind_lift,
    fromWasmPath_wasmPath world.extism world.serde hload]
  rfl

theorem dispatchExternal_events_error {time : Nat} {ctx : DispatchCtx}
    {pkg : CorePluginExternalPackage} {e : ExtPluginError}
    (hload : (loadPackage world time pkg.wasmPath).result = .error e)
    (funcName argsJson : String) :
    (dispatchExternal world time ctx pkg funcName argsJson).events =
      (loadPackage world time pkg.wasmPath).events.map .load := by
  have hfail : (((loadPackage world time pkg.wasmPath).mapEvents DispatchEvent.load).mapError
      fun e => "failed to load wasm '" ++ pkg.wasmPath ++ "': " ++ e.display).result =
        .error ("failed to load wasm '" ++ pkg.wasmPath ++ "': " ++ e.display) := by
    simp [hload, Except.mapError]
  simp only [dispatchExternal]
  rw [Traced.bind_error _ hfail]
  rfl

theorem dispatchExternal_callTrace {time : Nat} {ctx : DispatchCtx} {key funcName : String}
    {pkg : CorePluginExternalPackage} (hroute : externalRoute ctx key = some (pkg, funcName))
    (argsJson : String) :
    CallTrace world time ctx key argsJson
      (dispatchExternal world time ctx pkg funcName argsJson).events := by
  cases hload : (loadPackage world time pkg.wasmPath).result with
  | error e =>
    rw [dispatchExternal_events_error world hload]
    obtain hdescribe | ⟨hsilent, _⟩ :=
      fromWasmPath_trace world.extism world.serde (2 * time) pkg.wasmPath
    · rw [loadPackage, hdescribe]
      exact .described pkg funcName hroute
    · rw [loadPackage, hsilent]
      exact .nothing
  | ok package =>
    rw [dispatchExternal_events_ok world hload]
    obtain hdescribe | ⟨_, hfail⟩ :=
      fromWasmPath_trace world.extism world.serde (2 * time) pkg.wasmPath
    · have hlen := extpluginClient_trace world.extism world.serde (2 * time + 1) package funcName
        (clientArgs world funcName argsJson) (clientGrants world ctx funcName)
      rw [loadPackage, hdescribe]
      cases hc : (extpluginClient world.extism world.serde (2 * time + 1) package funcName
        (clientArgs world funcName argsJson) (clientGrants world ctx funcName)).events with
      | nil => exact .entered pkg funcName package hroute hload
      | cons c rest =>
        rw [hc, List.length_cons] at hlen
        obtain rfl : rest = [] := List.eq_nil_of_length_eq_zero (by omega)
        exact .ran pkg funcName package c hroute hload (by rw [hc]; exact .head _)
    · exact absurd hload (hfail package)

/-- However the engine chose its key and its argument text, the events of the call have one
of these forms. -/
theorem dispatchImpl_callTrace (time : Nat) (ctx : DispatchCtx) (key argsJson : String) :
    CallTrace world time ctx key argsJson (dispatchImpl world time ctx key argsJson).events := by
  cases hi : ctx.internal.lookup key with
  | some func =>
    have hevents : (dispatchInternal world time func argsJson).events =
        [.internalCall func.id ((world.serde.value argsJson).toOption.getD .null)] := by
      simp only [dispatchInternal]
      rw [Traced.bind_ok _ (Traced.result_emit _), Traced.events_bind_lift]
      rfl
    rw [dispatchImpl_internal world hi, hevents]
    exact .handled func hi
  | none =>
    cases hroute : externalRoute ctx key with
    | none =>
      rw [dispatchImpl_unknown world hi hroute]
      exact .nothing
    | some route =>
      rw [dispatchImpl_external world hi hroute]
      exact dispatchExternal_callTrace world hroute argsJson

/-! ### From one call to whole runs -/

variable {world} {G : List DispatchEvent → DispatchEvent → Prop} {ctx : DispatchCtx}

theorem guarded_dispatched (hstable : Stable G)
    (hcall : ∀ time key argsJson, Guarded G (dispatchImpl world time ctx key argsJson).events)
    {events : List (CtxEvent DispatchCtx)}
    (hown : ∀ e ∈ events, (∃ key argsJson, e = .call ctx key argsJson) ∨ e = .drop ctx)
    (time : Nat) : Guarded G (dispatched world time events) := by
  induction events generalizing time with
  | nil => exact guarded_nil
  | cons e events ih =>
    obtain ⟨hfirst, hrest⟩ := List.forall_mem_cons.mp hown
    obtain ⟨key, argsJson, rfl⟩ | rfl := hfirst
    · exact (hcall time key argsJson).append hstable (ih hrest (time + 1))
    · exact ih hrest time

/-- The engine uses no other context than its own. -/
theorem own_context (plugin : EnginePlugin) (time : Nat) (script : String)
    (preScripts : List String) (dispatcher : PluginDispatcher DispatchCtx) :
    ∀ e ∈ (runScriptImpl world.serde plugin time script preScripts dispatcher).events,
      (∃ key argsJson, e = .call dispatcher.ctx key argsJson) ∨ e = .drop dispatcher.ctx := by
  obtain ⟨hyes, hno⟩ := ContextLifetime.runScriptImpl_events world.serde plugin time script
    preScripts dispatcher
  intro e he
  by_cases hsteps : ContextLifetime.StepsSucceed world.serde plugin time script preScripts dispatcher
  · obtain ⟨calls, hcalls, hall⟩ := hyes hsteps
    rw [hcalls] at he
    cases List.mem_append.mp he with
    | inl he => exact Or.inl (hall e he)
    | inr he => exact Or.inr (List.mem_singleton.mp he)
  · exact Or.inl (hno hsteps e he)

variable (world) in
/-- An engine is the exported module around some engine plugin. -/
def IsEngine (lib : Engine) : Prop := ∃ plugin, lib = ffiRunScript world.serde plugin

theorem guarded_answer (hstable : Stable G) {lib : Engine} (hlib : IsEngine world lib)
    {w : CoreWorkflowCode}
    (hcall : ∀ time key argsJson,
      Guarded G (dispatchImpl world time w.dispatchCtx key argsJson).events) (time : Nat) :
    Guarded G (dispatched world time (w.answer world lib time).events) := by
  obtain ⟨plugin, rfl⟩ := hlib
  exact guarded_dispatched hstable hcall
    (own_context (plugin time) time w.code w.preScripts (w.dispatcher world)) time

/-! ### The trace of a process -/

variable (world)

def stepTrace (p : Process) : Step → List DispatchEvent
  | .init _ => []
  | .run time _ =>
    match p.cell with
    | some lib => dispatched world time (p.workflow.answer world lib time).events
    | none => []

/-- The dispatcher's work along a sequence of loads and runs, up to the first panic. -/
def processTrace (p : Process) : List Step → List DispatchEvent
  | [] => []
  | s :: steps => stepTrace world p s ++
    match step world p s with
    | .ok q => processTrace q steps
    | .error _ => []

variable {world}

/-- A step changes neither the context of the runs nor what the cell can hold. -/
theorem step_keeps {p q : Process} {s : Step} (h : step world p s = .ok q) :
    q.workflow.dispatchCtx = p.workflow.dispatchCtx ∧
      ∀ lib, q.cell = some lib → p.cell = some lib ∨ s = .init (.ok lib) := by
  obtain ⟨rs, _, hw⟩ := step_appends world h
  refine ⟨by rw [hw]; rfl, fun lib hlib => ?_⟩
  cases s with
  | init load =>
    obtain rfl := Except.ok.inj h
    cases hcell : p.cell with
    | some lib' => exact Or.inl (by simpa [initJsEngine, hcell] using hlib)
    | none =>
      cases load with
      | error e => simp [initJsEngine, hcell] at hlib
      | ok lib' => simpa [initJsEngine, hcell] using hlib
  | run time elapsedMs =>
    obtain ⟨lib', hcell⟩ := Option.isSome_iff_exists.mp ((step_run_ok_iff world p _ _).mp ⟨q, h⟩)
    rw [step, hcell, CoreWorkflowCode.run_some] at h
    obtain rfl := Except.ok.inj h
    exact Or.inl (hcell.symm ▸ hlib)

/-- A guard that every single call of a workflow meets is met along every sequence of loads
and runs. -/
theorem guarded_processTrace (hstable : Stable G) {p : Process}
    (hcall : ∀ time key argsJson,
      Guarded G (dispatchImpl world time p.workflow.dispatchCtx key argsJson).events)
    {steps : List Step} (hcell : ∀ lib, p.cell = some lib → IsEngine world lib)
    (hinit : ∀ lib, .init (.ok lib) ∈ steps → IsEngine world lib) :
    Guarded G (processTrace world p steps) := by
  induction steps generalizing p with
  | nil => exact guarded_nil
  | cons s steps ih =>
    have hstep : Guarded G (stepTrace world p s) := by
      cases s with
      | init load => exact guarded_nil
      | run time elapsedMs =>
        cases hc : p.cell with
        | none => simpa [stepTrace, hc] using guarded_nil
        | some lib =>
          simpa [stepTrace, hc] using guarded_answer hstable (hcell lib hc) hcall time
    rw [processTrace]
    refine hstep.append hstable ?_
    cases hs : step world p s with
    | error panic => exact guarded_nil
    | ok q =>
      obtain ⟨hctx, hq⟩ := step_keeps hs
      refine ih (by rwa [hctx]) (fun lib hlib => ?_) fun lib h => hinit lib (.tail _ h)
      cases hq lib hlib with
      | inl hold => exact hcell lib hold
      | inr hnew => exact hinit lib (hnew ▸ .head _)

/-! ### What a workflow permits -/

/-- What the packages and the grants of a workflow allow the dispatcher to do. -/
def Permitted (w : CoreWorkflowCode) : DispatchEvent → Prop
  | .internalCall id _ => ∃ c, .core c ∈ w.pluginPackages ∧ ∃ f ∈ c.functions, f.id = id
  | .load c => ∃ p, .external p ∈ w.pluginPackages ∧ c = ⟨Manifest.new p.wasmPath, "describe", ""⟩
  | .client wasmPath funcName _ permissions =>
    (∃ p, .external p ∈ w.pluginPackages ∧ wasmPath = p.wasmPath) ∧
      ∀ q ∈ permissions, RecordedUnder w.dispatchCtx funcName q ∨
        q = Permission.new .allowAll "" ∧ AllowAllUnder w.dispatchCtx funcName
  | .run c =>
    (∃ p, .external p ∈ w.pluginPackages ∧ c.manifest.wasm = p.wasmPath) ∧
      (∀ paths, c.manifest.allowedPaths = some paths → ∀ e ∈ paths.entries,
        PathGranted w.dispatchCtx c.exportName e.1 ∧ PathGranted w.dispatchCtx c.exportName e.2) ∧
      ∀ hosts, c.manifest.allowedHosts = some hosts → ∀ host ∈ hosts,
        HostGranted w.dispatchCtx c.exportName host

/-- A route of a workflow leads to one of its packages. -/
theorem listed_of_route {w : CoreWorkflowCode} {key funcName : String}
    {pkg : CorePluginExternalPackage}
    (h : externalRoute w.dispatchCtx key = some (pkg, funcName)) :
    .external pkg ∈ w.pluginPackages := by
  obtain ⟨pkgId, _, hfind⟩ := externalRoute_eq_some.mp h
  have hmem := List.mem_of_find?_eq_some hfind
  rw [CoreWorkflowCode.dispatchCtx_external, List.mem_filterMap] at hmem
  obtain ⟨p, hp, hext⟩ := hmem
  cases p with
  | core c => cases hext
  | external p =>
    obtain rfl := Option.some.inj hext
    exact hp

/-- The sandbox of a client's call opens nothing but what the grants under its name say. -/
theorem permitted_run {w : CoreWorkflowCode} {time : Nat} {package : SapphillonPackage}
    {pkg : CorePluginExternalPackage} {funcName argsJson : String} {c : WasmCall}
    (hpkg : .external pkg ∈ w.pluginPackages) (hwasm : package.wasmPath = pkg.wasmPath)
    (hc : c ∈ (extpluginClient world.extism world.serde time package funcName
      (clientArgs world funcName argsJson) (clientGrants world w.dispatchCtx funcName)).events) :
    Permitted w (.run c) := by
  obtain ⟨_, hmanifest, rfl⟩ := extpluginClient_events _ _ hc
  refine ⟨⟨pkg, hpkg, by rw [hmanifest]; exact hwasm⟩, fun paths hpaths e he => ?_,
    fun hosts hhosts host hhost => ?_⟩
  · rw [hmanifest] at hpaths
    rw [buildManifest_allowedPaths hpaths] at he
    obtain ⟨⟨p, hp, hkey⟩, ⟨q, hq, hval⟩, _⟩ := mem_paths he
    exact ⟨pathGranted_of_grantPath world hp hkey, pathGranted_of_grantPath world hq hval⟩
  · rw [hmanifest] at hhosts
    rw [buildManifest_allowedHosts hhosts] at hhost
    obtain ⟨p, hp, hgrant⟩ := mem_hosts.mp hhost
    exact hostGranted_of_grantHost world hp hgrant

theorem CallTrace.permitted {w : CoreWorkflowCode} {time : Nat} {key argsJson : String}
    {l : List DispatchEvent} (h : CallTrace world time w.dispatchCtx key argsJson l) :
    ∀ e ∈ l, Permitted w e := by
  have hload {pkg funcName} (hroute : externalRoute w.dispatchCtx key = some (pkg, funcName)) :
      Permitted w (.load ⟨Manifest.new pkg.wasmPath, "describe", ""⟩) :=
    ⟨pkg, listed_of_route hroute, rfl⟩
  have hclient {pkg funcName} (hroute : externalRoute w.dispatchCtx key = some (pkg, funcName)) :
      Permitted w (.client pkg.wasmPath funcName (clientArgs world funcName argsJson)
        (clientGrants world w.dispatchCtx funcName)) :=
    ⟨⟨pkg, listed_of_route hroute, rfl⟩, fun q hq => mem_clientGrants world hq⟩
  cases h with
  | nothing => simp
  | handled func hlookup =>
    obtain ⟨c, hc, f, hf, rfl, _⟩ := CoreWorkflowCode.listed_of_lookup hlookup
    exact List.forall_mem_singleton.mpr ⟨c, hc, f, hf, rfl⟩
  | described pkg funcName hroute => exact List.forall_mem_singleton.mpr (hload hroute)
  | entered pkg funcName package hroute _ =>
    exact List.forall_mem_cons.mpr
      ⟨hload hroute, List.forall_mem_singleton.mpr (hclient hroute)⟩
  | ran pkg funcName package c hroute hpackage hc =>
    have hrun : Permitted w (.run c) := permitted_run (listed_of_route hroute)
      (fromWasmPath_wasmPath world.extism world.serde hpackage) hc
    exact List.forall_mem_cons.mpr ⟨hload hroute, List.forall_mem_cons.mpr
      ⟨hclient hroute, List.forall_mem_singleton.mpr hrun⟩⟩

def callingWorld : World := { sampleWorld with serde := { sampleSerde with value := readValue } }

def callingEngine : Engine :=
  ffiRunScript callingWorld.serde fun _ =>
    { new := .ok ()
      call := fun _ =>
        .dispatch (writeObject [("op_key", "files::read"), ("args_json", "{}")])
          fun _ => .finish (.ok "") }

def callingWorkflow : CoreWorkflowCode :=
  CoreWorkflowCode.new "w" "Sapphillon.files.read()"
    [.external (samplePackage "files" [("files-read", "read")])] 1
    [⟨"read", ⟨[Permission.new .filesystemRead "/data"]⟩⟩] []

def callingSteps : List Step := [.init (.ok callingEngine), .run 0 7, .run 5 3]

theorem isEngine_of_callingSteps {lib : Engine} (h : .init (.ok lib) ∈ callingSteps) :
    IsEngine callingWorld lib := by
  obtain rfl : lib = callingEngine := by simpa [callingSteps] using h
  exact ⟨_, rfl⟩

variable (world) in
/-- An export is called right behind the entry into the client, and that right behind the
reading of the module's descriptor; the descriptor knows the export, and the grants the client
was entered with meet the types it declares and make up the manifest. -/
def Checked (before : List DispatchEvent) : DispatchEvent → Prop
  | .internalCall _ _ => True
  | .load _ => True
  | .client wasmPath _ _ _ =>
    ∃ earlier, before = earlier ++ [.load ⟨Manifest.new wasmPath, "describe", ""⟩]
  | .run c => ∃ earlier time package args permissions schema,
      before = earlier ++ [.load ⟨Manifest.new package.wasmPath, "describe", ""⟩,
        .client package.wasmPath c.exportName args permissions] ∧
      (loadPackage world time package.wasmPath).result = .ok package ∧
      package.functions.lookup c.exportName = some schema ∧
      checkFunctionPermissions schema permissions = .ok () ∧
      c.manifest = buildManifest package permissions ∧
      world.serde.ofBridgeArgs args = .ok c.input

theorem stable_checked : Stable (Checked world) := by
  intro past before e h
  cases e with
  | internalCall id args => trivial
  | load c => trivial
  | client wasmPath funcName args permissions =>
    obtain ⟨earlier, rfl⟩ := h
    exact ⟨past ++ earlier, (List.append_assoc _ _ _).symm⟩
  | run c =>
    obtain ⟨earlier, time, package, args, permissions, schema, rfl, hrest⟩ := h
    exact ⟨past ++ earlier, time, package, args, permissions, schema,
      (List.append_assoc _ _ _).symm, hrest⟩

theorem CallTrace.checked {time : Nat} {key argsJson : String} {l : List DispatchEvent}
    (h : CallTrace world time ctx key argsJson l) : Guarded (Checked world) l := by
  have hdescribed (pkg : CorePluginExternalPackage) :
      Guarded (Checked world) [.load ⟨Manifest.new pkg.wasmPath, "describe", ""⟩] :=
    guarded_singleton.mpr trivial
  have hentered (pkg : CorePluginExternalPackage) (funcName : String) :
      Guarded (Checked world) [.load ⟨Manifest.new pkg.wasmPath, "describe", ""⟩,
        .client pkg.wasmPath funcName (clientArgs world funcName argsJson)
          (clientGrants world ctx funcName)] :=
    (guarded_concat (l := [_])).mpr ⟨hdescribed pkg, [], rfl⟩
  cases h with
  | nothing => exact guarded_nil
  | handled func _ => exact guarded_singleton.mpr trivial
  | described pkg funcName _ => exact hdescribed pkg
  | entered pkg funcName package _ _ => exact hentered pkg funcName
  | ran pkg funcName package c _ hload hc =>
    obtain ⟨schema, input, hschema, hcheck, _, hinput, rfl⟩ := (mem_extpluginClient _ _).mp hc
    have hwasm := fromWasmPath_wasmPath world.extism world.serde hload
    refine (guarded_concat (l := [_, _])).mpr ⟨hentered pkg funcName, [], time, package, _, _,
      schema, ?_, ?_, hschema, hcheck, rfl, hinput⟩
    · rw [hwasm]
      rfl
    · rwa [hwasm]

end Sapphillon.RunTrace
