import Sapphillon.Runtime

/-! `workflow.rs`: a workflow with its packages and grants, the run that appends a result to
it, and the functions its text mentions. -/
namespace Sapphillon.Workflow
open StdStr JsInterface Permission Plugin Proto Sapphillon.Runtime

structure CoreWorkflowCode where
  id : String
  code : String
  pluginPackages : List PluginPackage
  codeRevision : Int32
  result : List WorkflowResult
  allowedPermissions : List PluginFunctionPermissions
  requiredPermissions : List PluginFunctionPermissions

/-- The copy of a package the runtime holds, field by field. -/
def rebuild (ext : CorePluginExternalPackage) : CorePluginExternalPackage where
  id := ext.id
  name := ext.name
  functions := ext.functions.map fun f =>
    { id := f.id
      name := f.name
      description := f.description
      authorId := f.authorId
      packageId := f.packageId }
  wasmPath := ext.wasmPath

/-- One round of the loop over the packages in `run`. -/
def collectStep (acc : List PluginFunction × List CorePluginExternalPackage)
    (pkg : PluginPackage) : List PluginFunction × List CorePluginExternalPackage :=
  let externalPackages :=
    if pkg.isExternal then
      match pkg.asExternalPackage with
      | some ext => acc.2 ++ [rebuild ext]
      | none => acc.2
    else acc.2
  (acc.1 ++ pkg.getFunctions, externalPackages)

def dotAccessor (pkg func : String) : String := "Sapphillon." ++ pkg ++ "." ++ func

def bracketAccessor (pkg func : String) : String :=
  "Sapphillon[\"" ++ pkg ++ "\"][\"" ++ func ++ "\"]"

namespace CoreWorkflowCode

def new (id code : String) (pluginPackages : List PluginPackage) (codeRevision : Int32)
    (allowedPermissions requiredPermissions : List PluginFunctionPermissions) :
    CoreWorkflowCode :=
  { id := id
    code := code
    pluginPackages := pluginPackages
    codeRevision := codeRevision
    result := []
    allowedPermissions := allowedPermissions
    requiredPermissions := requiredPermissions }

def newFromProto (workflowCode : WorkflowCode) (pluginPackages : List PluginPackage)
    (requiredPermissions allowedPermissions : List PluginFunctionPermissions) :
    CoreWorkflowCode :=
  new workflowCode.id workflowCode.code pluginPackages workflowCode.codeRevision
    allowedPermissions requiredPermissions

def collect (w : CoreWorkflowCode) : List PluginFunction × List CorePluginExternalPackage :=
  w.pluginPackages.foldl collectStep ([], [])

def workflowData (w : CoreWorkflowCode) : OpStateWorkflowData :=
  OpStateWorkflowData.new w.id true (some w.allowedPermissions) (some w.requiredPermissions)
    w.collect.2

def pushResult (w : CoreWorkflowCode) (r : WorkflowResult) : CoreWorkflowCode :=
  { w with result := w.result ++ [r] }

variable (world : World)

def run (cell : Option Engine) (time : Nat) (elapsedMs : Int64) (w : CoreWorkflowCode) :
    Except Panic CoreWorkflowCode := do
  let outcome ← runScript world cell time w.code w.collect.1 (some (Mutex.new w.workflowData)) none
  match outcome.result with
  | .ok dataArc => do
    let data ← dataArc.lock
    return w.pushResult
      { status := WorkflowStatus.ok.toI32
        stdout := data.stdoutToString
        durationMs := elapsedMs
        errorMessage := "" }
  | .error err =>
    return w.pushResult
      { status := WorkflowStatus.error.toI32
        stdout := ""
        durationMs := elapsedMs
        errorMessage := err.display }

def extractUsedPlugins (w : CoreWorkflowCode) (availablePlugins : List CorePluginPackage) :
    List PluginIdentifier :=
  availablePlugins.flatMap fun pkg => pkg.functions.filterMap fun func =>
    let dot := dotAccessor pkg.name func.name
    let bracket := bracketAccessor pkg.name func.name
    if contains w.code.toList dot.toList || contains w.code.toList bracket.toList then
      some { packageId := pkg.id, functionName := func.name }
    else none

/-- The context the dispatcher of a run points to. -/
def dispatchCtx (w : CoreWorkflowCode) : DispatchCtx := buildCtx w.collect.1 w.workflowData

/-- The shims of all functions, in order. -/
def preScripts (w : CoreWorkflowCode) : List String := (w.collect.1.foldl routePlugin ([], [])).1

/-- The dispatcher a run hands to the engine. -/
def dispatcher (w : CoreWorkflowCode) : PluginDispatcher DispatchCtx :=
  ⟨w.dispatchCtx, dispatchCall world⟩

/-- The entry for an outcome of the engine. -/
def resultOf (w : CoreWorkflowCode) (elapsedMs : Int64) :
    Except String String → WorkflowResult
  | .ok stdout =>
    { status := WorkflowStatus.ok.toI32
      stdout := (ingest w.workflowData stdout).stdoutToString
      durationMs := elapsedMs
      errorMessage := "" }
  | .error msg =>
    { status := WorkflowStatus.error.toI32
      stdout := ""
      durationMs := elapsedMs
      errorMessage := (scriptError msg).display }

/-- What the engine does in a run. -/
def answer (lib : Engine) (time : Nat) (w : CoreWorkflowCode) :
    Traced (CtxEvent DispatchCtx) String String :=
  lib.runScript time w.code w.preScripts (w.dispatcher world)

/-- A run without a loaded engine panics. -/
theorem run_none (time : Nat) (elapsedMs : Int64) (w : CoreWorkflowCode) :
    w.run world none time elapsedMs = .error .engineNotInitialised := rfl

/-- With an engine a run appends the entry for what the engine answered. -/
theorem run_some (lib : Engine) (time : Nat) (elapsedMs : Int64) (w : CoreWorkflowCode) :
    w.run world (some lib) time elapsedMs =
      .ok (w.pushResult (w.resultOf elapsedMs (w.answer world lib time).result)) := by
  have hrun : runScript world (some lib) time w.code w.collect.1
      (some (Mutex.new w.workflowData)) none =
        .ok ⟨(w.answer world lib time).events,
          finish w.workflowData (w.answer world lib time).result⟩ :=
    runScript_eq world lib time w.code w.collect.1 w.workflowData none
  rw [run, hrun]
  cases (w.answer world lib time).result with
  | ok stdout => rfl
  | error msg => rfl

/-! ### The context of a run -/

theorem rebuild_eq (ext : CorePluginExternalPackage) : rebuild ext = ext := by
  simp [rebuild]

theorem foldl_collectStep (packages : List PluginPackage)
    (acc : List PluginFunction × List CorePluginExternalPackage) :
    packages.foldl collectStep acc =
      (acc.1 ++ packages.flatMap PluginPackage.getFunctions,
        acc.2 ++ packages.filterMap PluginPackage.asExternalPackage) := by
  induction packages generalizing acc with
  | nil => simp
  | cons pkg packages ih =>
    rw [List.foldl_cons, ih]
    cases pkg with
    | core p =>
      simp [collectStep, PluginPackage.isExternal, PluginPackage.asExternalPackage,
        List.filterMap_cons]
    | external p =>
      simp [collectStep, PluginPackage.isExternal, PluginPackage.asExternalPackage,
        rebuild_eq]

theorem collect_eq (w : CoreWorkflowCode) :
    w.collect = (w.pluginPackages.flatMap PluginPackage.getFunctions,
      w.pluginPackages.filterMap PluginPackage.asExternalPackage) := by
  rw [collect, foldl_collectStep]
  rfl

theorem dispatchCtx_external (w : CoreWorkflowCode) :
    w.dispatchCtx.external = w.pluginPackages.filterMap PluginPackage.asExternalPackage := by
  change w.collect.2 = _
  rw [collect_eq]

/-- The routing table answers a key exactly when an internal function has it as its id. -/
theorem lookup_routePlugin (plugins : List PluginFunction)
    (acc : List String × List (String × InternalFnRef)) (key : String) :
    (plugins.foldl routePlugin acc).2.lookup key = none ↔
      acc.2.lookup key = none ∧ ∀ f, .internal f ∈ plugins → f.id ≠ key := by
  induction plugins generalizing acc with
  | nil => simp
  | cons func plugins ih =>
    rw [List.foldl_cons, ih]
    cases func with
    | internal f =>
      simp only [routePlugin, PluginFunction.getFunctionId, List.lookup_cons, List.mem_cons,
        PluginFunction.internal.injEq]
      by_cases hf : f.id = key
      · refine iff_of_false (fun h => ?_) fun h => h.2 f (Or.inl rfl) hf
        simp [hf] at h
      · have hkey : (key == f.id) = false := by simpa using Ne.symm hf
        simp [hkey, hf]
    | external f => simp [routePlugin]

theorem dispatchCtx_lookup (w : CoreWorkflowCode) (key : String) :
    w.dispatchCtx.internal.lookup key = none ↔
      ∀ c, .core c ∈ w.pluginPackages → ∀ f ∈ c.functions, f.id ≠ key := by
  change (w.collect.1.foldl routePlugin ([], [])).2.lookup key = none ↔ _
  rw [lookup_routePlugin, collect_eq]
  simp only [List.lookup_nil, true_and, List.mem_flatMap, mem_getFunctions_internal]
  constructor
  · intro h c hc f hf
    exact h f.toRef ⟨_, hc, c, rfl, f, hf, rfl⟩
  · intro h _ hfunc
    obtain ⟨_, hc, c, rfl, f, hf, rfl⟩ := hfunc
    exact h c hc f hf

/-- The entry of an internal function in the routing table. -/
def internalEntry : PluginFunction → Option (String × InternalFnRef)
  | .internal f => some (f.id, f)
  | .external _ => none

/-- The loop collects the shims in order, and the internal functions with the last one
first. -/
theorem foldl_routePlugin (plugins : List PluginFunction)
    (acc : List String × List (String × InternalFnRef)) :
    plugins.foldl routePlugin acc =
      (acc.1 ++ plugins.filterMap PluginFunction.getPreRunJs,
        (plugins.filterMap internalEntry).reverse ++ acc.2) := by
  induction plugins generalizing acc with
  | nil => simp
  | cons func plugins ih =>
    rw [List.foldl_cons, ih]
    cases func with
    | internal f =>
      cases hjs : f.preRunJs <;>
        simp [routePlugin, PluginFunction.getPreRunJs, PluginFunction.getFunctionId, internalEntry,
          hjs]
    | external f =>
      simp [routePlugin, PluginFunction.getPreRunJs, ExternalFnRef.getPreRunJs, internalEntry,
        List.filterMap_cons]

theorem preScripts_eq (w : CoreWorkflowCode) :
    w.preScripts =
      (w.pluginPackages.flatMap PluginPackage.getFunctions).filterMap PluginFunction.getPreRunJs := by
  rw [preScripts, collect_eq, foldl_routePlugin]
  rfl

theorem dispatchCtx_internal (w : CoreWorkflowCode) :
    w.dispatchCtx.internal =
      ((w.pluginPackages.flatMap PluginPackage.getFunctions).filterMap internalEntry).reverse := by
  change (w.collect.1.foldl routePlugin ([], [])).2 = _
  rw [collect_eq, foldl_routePlugin, List.append_nil]

/-- A key leads to an internal function that is listed with the key as its id. -/
theorem listed_of_lookup {w : CoreWorkflowCode} {key : String} {func : InternalFnRef}
    (h : w.dispatchCtx.internal.lookup key = some func) :
    ∃ c, .core c ∈ w.pluginPackages ∧ ∃ f ∈ c.functions, f.toRef = func ∧ f.id = key := by
  obtain ⟨before, after, hsplit, _⟩ := List.lookup_eq_some_iff.mp h
  have hmem : (key, func) ∈ w.dispatchCtx.internal := by simp [hsplit]
  rw [dispatchCtx_internal, List.mem_reverse, List.mem_filterMap] at hmem
  obtain ⟨g, hg, hentry⟩ := hmem
  obtain ⟨p, hp, hgp⟩ := List.mem_flatMap.mp hg
  cases g with
  | external g => cases hentry
  | internal g =>
    obtain ⟨rfl, rfl⟩ := Prod.mk.inj (Option.some.inj hentry)
    obtain ⟨c, rfl, f, hf, rfl⟩ := mem_getFunctions_internal.mp hgp
    exact ⟨c, hp, f, hf, rfl, rfl⟩

end CoreWorkflowCode
end Sapphillon.Workflow
