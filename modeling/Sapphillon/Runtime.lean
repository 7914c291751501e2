import Sapphillon.Lines
import Sapphillon.Permission
import Sapphillon.ExtPlugin
import Sapphillon.Plugin
import Sapphillon.JsInterface

/-! `runtime/mod.rs`: the routing of a dispatched call to its handler, and the run of one
script. A panic is an outcome of its own, apart from the errors a function returns. -/
namespace Sapphillon.Runtime
open CheckUrl ExtPlugin JsInterface Lines Permission Plugin Proto StdStr

/-- The code outside the repository the runtime rests on. -/
structure World where
  extism : Extism
  serde : Serde
  parseUrl : String → Option Url

structure DispatchCtx where
  internal : List (String × InternalFnRef)
  external : List CorePluginExternalPackage
  allowedPermissions : List PluginFunctionPermissions

/-- What a dispatched call does: a handler runs, the client is entered, and the client's
part and the loading of the package call exports of the module. -/
inductive DispatchEvent where
  | internalCall (functionId : String) (args : Json)
  | load (call : WasmCall)
  | client (wasmPath funcName : String) (args : RsJsBridgeArgs) (permissions : List Permission)
  | run (call : WasmCall)

/-- `op_key.split_once("::")`. -/
def splitOpKey (opKey : String) : Option (String × String) :=
  (splitOnce "::".toList opKey.toList).map fun (left, right) =>
    (String.ofList left, String.ofList right)

variable (world : World)

/-- The loading of a package, at the first of the two moments of a call. -/
def loadPackage (time : Nat) (wasmPath : String) :
    Traced WasmCall ExtPluginError SapphillonPackage :=
  SapphillonPackage.fromWasmPath world.extism world.serde (2 * time) wasmPath

def dispatchInternal (time : Nat) (func : InternalFnRef) (argsJson : String) :
    Traced DispatchEvent String String := do
  let args := (world.serde.value argsJson).toOption.getD .null
  Traced.emit (.internalCall func.id args)
  let result ← Traced.lift (func.func time args)
  Traced.lift (world.serde.ofValue result)

def dispatchExternal (time : Nat) (ctx : DispatchCtx) (pkg : CorePluginExternalPackage)
    (funcName argsJson : String) : Traced DispatchEvent String String := do
  let allowed := findAllowedPermissions world.parseUrl ctx.allowedPermissions [funcName]
  let argsMap := (world.serde.indexMap argsJson).toOption.getD []
  let bridgeArgs : RsJsBridgeArgs := ⟨funcName, argsMap⟩
  let sapphillonPkg ← ((loadPackage world time pkg.wasmPath).mapEvents .load).mapError fun e =>
    "failed to load wasm '" ++ pkg.wasmPath ++ "': " ++ e.display
  Traced.emit (.client sapphillonPkg.wasmPath funcName bridgeArgs allowed.permissions)
  let returns ← ((extpluginClient world.extism world.serde (2 * time + 1) sapphillonPkg funcName
    bridgeArgs allowed.permissions).mapEvents .run).mapError fun e =>
      "extism call failed: " ++ e.display
  Traced.lift (world.serde.ofIndexMap returns.args)

def unknownOpKey (opKey : String) : Traced DispatchEvent String String :=
  Traced.lift (.error ("unknown op key: " ++ opKey))

def dispatchImpl (time : Nat) (ctx : DispatchCtx) (opKey argsJson : String) :
    Traced DispatchEvent String String :=
  match ctx.internal.lookup opKey with
  | some func => dispatchInternal world time func argsJson
  | none =>
    match splitOpKey opKey with
    | some (pkgId, funcName) =>
      match ctx.external.find? fun p => p.id == pkgId with
      | some pkg => dispatchExternal world time ctx pkg funcName argsJson
      | none => unknownOpKey opKey
    | none => unknownOpKey opKey

def dispatchCall (time : Nat) (ctx : DispatchCtx) (opKey argsJson : String) :
    Except String String :=
  (dispatchImpl world time ctx opKey argsJson).result

/-! ### Workflow data -/

inductive WorkflowStdout where
  | stdout (s : String)
deriving DecidableEq, Repr

structure OpStateWorkflowData where
  workflowId : String
  captureStdout : Bool
  stdoutBuf : List WorkflowStdout
  allowedPermissions : Option (List PluginFunctionPermissions)
  requiredPermissions : Option (List PluginFunctionPermissions)
  externalPackages : List CorePluginExternalPackage

namespace OpStateWorkflowData

def new (workflowId : String) (captureStdout : Bool)
    (allowedPermissions requiredPermissions : Option (List PluginFunctionPermissions))
    (externalPackages : List CorePluginExternalPackage) : OpStateWorkflowData :=
  { workflowId := workflowId
    captureStdout := captureStdout
    stdoutBuf := []
    allowedPermissions := allowedPermissions
    requiredPermissions := requiredPermissions
    externalPackages := externalPackages }

def addResult (data : OpStateWorkflowData) (s : WorkflowStdout) : OpStateWorkflowData :=
  { data with stdoutBuf := data.stdoutBuf ++ [s] }

def stdoutToString (data : OpStateWorkflowData) : String :=
  "\n".intercalate (data.stdoutBuf.map fun | .stdout t => t)

end OpStateWorkflowData

/-! ### Errors and panics -/

inductive WorkflowRuntimeErrorType where
  | corePluginPrepareError
  | corePluginExecuteError
  | workflowScriptExecuteError
deriving DecidableEq, Repr

def WorkflowRuntimeErrorType.debug : WorkflowRuntimeErrorType → String
  | .corePluginPrepareError => "CorePluginPrepareError"
  | .corePluginExecuteError => "CorePluginExecuteError"
  | .workflowScriptExecuteError => "WorkflowScriptExecuteError"

structure WorkflowRuntimeError where
  message : String
  errorType : WorkflowRuntimeErrorType
  jsErrorDetail : String
deriving DecidableEq, Repr

/-- The display text of the error of a run. -/
def WorkflowRuntimeError.display (e : WorkflowRuntimeError) : String :=
  "workflow runtime error: " ++ e.errorType.debug ++ ": " ++ e.message

inductive Panic where
  | engineNotInitialised
  | poisonedLock
deriving DecidableEq, Repr

structure Mutex (α : Type) where
  value : α
  poisoned : Bool

def Mutex.new {α : Type} (value : α) : Mutex α := ⟨value, false⟩

/-- `lock().unwrap()`. -/
def Mutex.lock {α : Type} (m : Mutex α) : Except Panic α :=
  if m.poisoned then .error .poisonedLock else .ok m.value

/-! ### The engine cell -/

abbrev Engine := JsEngineLib DispatchCtx

/-- A second load is skipped; the cell keeps its engine for good. -/
def initJsEngine (cell : Option Engine) (load : Except String Engine) :
    Option Engine × Except String Unit :=
  match cell with
  | some lib => (some lib, .ok ())
  | none =>
    match load with
    | .ok lib => (some lib, .ok ())
    | .error e => (none, .error e)

def jsEngine (cell : Option Engine) : Except Panic Engine :=
  match cell with
  | some lib => .ok lib
  | none => .error .engineNotInitialised

/-! ### The run of a script -/

/-- One round of the loop that builds the routing table and collects the shims; a later
function of the same id replaces the earlier one. -/
def routePlugin (acc : List String × List (String × InternalFnRef)) (func : PluginFunction) :
    List String × List (String × InternalFnRef) :=
  let preScripts := match func.getPreRunJs with
    | some js => acc.1 ++ [js]
    | none => acc.1
  match func with
  | .internal f => (preScripts, (func.getFunctionId, f) :: acc.2)
  | .external _ => (preScripts, acc.2)

/-- What a run reads under the lock. -/
def snapshot (data : OpStateWorkflowData) :
    List CorePluginExternalPackage × List PluginFunctionPermissions :=
  (data.externalPackages, data.allowedPermissions.getD [])

/-- What a run writes under the lock: the lines that are not empty. -/
def ingest (data : OpStateWorkflowData) (stdout : String) : OpStateWorkflowData :=
  (stdout.toList.splitOn '\n').foldl (fun data line =>
    if line.isEmpty then data else data.addResult (.stdout (String.ofList line))) data

/-- The entries of an output. -/
def entries (stdout : String) : List WorkflowStdout :=
  (lines '\n' stdout.toList).map fun line => .stdout (String.ofList line)

theorem ingest_eq (data : OpStateWorkflowData) (stdout : String) :
    ingest data stdout = { data with stdoutBuf := data.stdoutBuf ++ entries stdout } := by
  have hfold (pieces : List (List Char)) (data : OpStateWorkflowData) :
      pieces.foldl (fun data line =>
        if line.isEmpty then data else data.addResult (.stdout (String.ofList line))) data =
        { data with stdoutBuf := data.stdoutBuf ++
            (pieces.filter fun line => !line.isEmpty).map fun line => .stdout (String.ofList line) } := by
    induction pieces generalizing data with
    | nil => simp
    | cons line pieces ih =>
      rw [List.foldl_cons, ih]
      cases line <;> simp [OpStateWorkflowData.addResult]
  exact hfold _ data

theorem toList_stdoutToString (data : OpStateWorkflowData) :
    data.stdoutToString.toList =
      ['\n'].intercalate (data.stdoutBuf.map fun | .stdout t => t.toList) := by
  rw [OpStateWorkflowData.stdoutToString, String.toList_intercalate, List.map_map]
  rfl

/-- Entries of outputs, joined and split again, are the same entries. -/
theorem entries_stdoutToString {data : OpStateWorkflowData} {outputs : List String}
    (h : data.stdoutBuf = outputs.flatMap entries) :
    entries data.stdoutToString = data.stdoutBuf := by
  have htexts : (data.stdoutBuf.map fun | .stdout t => t.toList) =
      outputs.flatMap fun out => lines '\n' out.toList := by
    rw [h, List.map_flatMap]
    simp [entries, List.map_map, Function.comp_def]
  have hlines (l : List Char) (hl : l ∈ outputs.flatMap fun out => lines '\n' out.toList) :
      l ≠ [] ∧ '\n' ∉ l := by
    obtain ⟨out, _, hl⟩ := List.mem_flatMap.mp hl
    exact of_mem_lines hl
  rw [entries, toList_stdoutToString, htexts, lines_intercalate_lines hlines, h]
  rw [List.map_flatMap]
  rfl

/-- `msg.lines().next().unwrap_or("")`. -/
def firstLine (msg : String) : String :=
  let (line, rest) := msg.toList.span (· != '\n')
  if rest.isEmpty then msg
  else if line.getLast? == some '\r' then String.ofList line.dropLast
  else String.ofList line

def scriptError (msg : String) : WorkflowRuntimeError :=
  { message := firstLine msg
    errorType := .workflowScriptExecuteError
    jsErrorDetail := msg }

/-- The context of a run: the internal functions, and the packages and grants of the data. -/
def buildCtx (plugins : List PluginFunction) (data : OpStateWorkflowData) : DispatchCtx :=
  let (external, allowedPermissions) := snapshot data
  { internal := (plugins.foldl routePlugin ([], [])).2
    external := external
    allowedPermissions := allowedPermissions }

def runScript (cell : Option Engine) (time : Nat) (script : String)
    (plugins : List PluginFunction) (workflowData : Option (Mutex OpStateWorkflowData))
    (preScript : Option (List String)) :
    Except Panic (Traced (CtxEvent DispatchCtx) WorkflowRuntimeError
      (Mutex OpStateWorkflowData)) := do
  let engine ← jsEngine cell
  let dataArc := workflowData.getD
    (Mutex.new (OpStateWorkflowData.new "__default__" true none none []))
  let preScripts := (plugins.foldl routePlugin (preScript.getD [], [])).1
  let data ← dataArc.lock
  let dispatcher : PluginDispatcher DispatchCtx := ⟨buildCtx plugins data, dispatchCall world⟩
  let result := engine.runScript time script preScripts dispatcher
  match result.result with
  | .ok stdout => do
    let data ← dataArc.lock
    return ⟨result.events, .ok { dataArc with value := ingest data stdout }⟩
  | .error errMsg => return ⟨result.events, .error (scriptError errMsg)⟩

/-- What a run makes of the engine's answer. -/
def finish (data : OpStateWorkflowData) :
    Except String String → Except WorkflowRuntimeError (Mutex OpStateWorkflowData)
  | .ok stdout => .ok (Mutex.new (ingest data stdout))
  | .error msg => .error (scriptError msg)

/-- With an engine and an unpoisoned lock a run returns, with the engine's own events. -/
theorem runScript_eq (lib : Engine) (time : Nat) (script : String)
    (plugins : List PluginFunction) (data : OpStateWorkflowData)
    (preScript : Option (List String)) :
    runScript world (some lib) time script plugins (some (Mutex.new data)) preScript =
      let answer := lib.runScript time script
        (plugins.foldl routePlugin (preScript.getD [], [])).1
        ⟨buildCtx plugins data, dispatchCall world⟩
      .ok ⟨answer.events, finish data answer.result⟩ := by
  cases h : (lib.runScript time script (plugins.foldl routePlugin (preScript.getD [], [])).1
      ⟨buildCtx plugins data, dispatchCall world⟩).result with
  | ok stdout =>
    simp [runScript, jsEngine, Mutex.lock, Mutex.new, finish, h, bind, Except.bind, pure,
      Except.pure]
  | error msg =>
    simp [runScript, jsEngine, Mutex.lock, Mutex.new, finish, h, bind, Except.bind, pure,
      Except.pure]

/-- The data a run works on: the caller's, or a default. -/
def dataOf (workflowData : Option (Mutex OpStateWorkflowData)) : OpStateWorkflowData :=
  (workflowData.getD (Mutex.new (OpStateWorkflowData.new "__default__" true none none []))).value

/-- Every run that returns did so with an engine and an unpoisoned lock. -/
theorem runScript_returned {lib : Engine} {time : Nat} {script : String}
    {plugins : List PluginFunction} {workflowData : Option (Mutex OpStateWorkflowData)}
    {preScript : Option (List String)}
    {out : Traced (CtxEvent DispatchCtx) WorkflowRuntimeError (Mutex OpStateWorkflowData)}
    (h : runScript world (some lib) time script plugins workflowData preScript = .ok out) :
    out.events = (lib.runScript time script
      (plugins.foldl routePlugin (preScript.getD [], [])).1
      ⟨buildCtx plugins (dataOf workflowData), dispatchCall world⟩).events := by
  obtain ⟨m, hm, hdata⟩ : ∃ m : Mutex OpStateWorkflowData,
      runScript world (some lib) time script plugins (some m) preScript = .ok out ∧
        dataOf workflowData = m.value := by
    cases workflowData with
    | none => exact ⟨_, h, rfl⟩
    | some m => exact ⟨m, h, rfl⟩
  obtain ⟨data, poisoned⟩ := m
  rw [hdata]
  cases poisoned with
  | true => cases hm
  | false =>
    have hout := (runScript_eq world lib time script plugins data preScript).symm.trans hm
    exact congrArg Traced.events (Except.ok.inj hout).symm

end Sapphillon.Runtime
