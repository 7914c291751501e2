import Sapphillon.JsInterface
import Sapphillon.ExtPlugin

/-! `sapphillon_js` and its `plugin.js`: the host function behind a dispatched call, the run
of the engine plugin with any number of such calls, and the JavaScript side of one call. -/
namespace Sapphillon.JsEngine
open ExtPlugin JsInterface

variable (serde : Serde) {Ctx : Type}

/-! ### The host function -/

/-- The reply to an outcome of the dispatcher. -/
def envelope : Except String String → Json
  | .ok s => .object [("ok", .string s)]
  | .error e => .object [("err", .string e)]

def sapphillonDispatchHost (dispatcher : PluginDispatcher Ctx) (time : Nat) (input : String) :
    Traced (CtxEvent Ctx) String String := do
  let req ← Traced.lift (serde.value input)
  let opKey := ((req.field? "op_key").bind Json.asStr?).getD ""
  let argsJson := ((req.field? "args_json").bind Json.asStr?).getD "\x7b\x7d"
  let result ← dispatcher.call time opKey argsJson
  Traced.lift (serde.ofValue (envelope result))

/-! ### The engine plugin -/

/-- What the engine module does with its input: it ends with an output or an error, or it
calls the host function and goes on with the reply. -/
inductive Guest where
  | finish (outcome : Except String String)
  | dispatch (input : String) (resume : String → Guest)

/-- A failed host function stops the module. -/
def runGuest (dispatcher : PluginDispatcher Ctx) (time : Nat) :
    Guest → Traced (CtxEvent Ctx) String String
  | .finish outcome => Traced.lift outcome
  | .dispatch input resume => do
    let reply ← sapphillonDispatchHost serde dispatcher time input
    runGuest dispatcher (time + 1) (resume reply)

/-- `Plugin::new` and `Plugin::call("run_script", ..)` on the embedded module. -/
structure EnginePlugin where
  new : Except String Unit
  call : String → Guest

def scriptInput (script : String) (preScripts : List String) : Json :=
  .object [("script", .string script), ("pre_scripts", .array (preScripts.map .string))]

def runScriptImpl (plugin : EnginePlugin) (time : Nat) (script : String)
    (preScripts : List String) (dispatcher : PluginDispatcher Ctx) :
    Traced (CtxEvent Ctx) String String := do
  Traced.lift (plugin.new.mapError ("failed to load JS engine plugin: " ++ ·))
  let inputStr ← Traced.lift ((serde.ofValue (scriptInput script preScripts)).mapError
    ("failed to serialise script input: " ++ ·))
  let stdout ← runGuest serde dispatcher time (plugin.call inputStr)
  dispatcher.release
  return stdout

/-- The exported module; the engine plugin may behave differently from run to run. -/
def ffiRunScript (plugin : Nat → EnginePlugin) : JsEngineLib Ctx where
  runScript time script preScripts dispatcher :=
    runScriptImpl serde (plugin time) time script preScripts dispatcher

/-! ### `plugin.js` -/

/-- `JSON.stringify` and `JSON.parse`. -/
structure JsJson where
  stringify : Json → String
  parse : String → Except String Json

inductive JsValue where
  | undefined
  | json (j : Json)

/-- How a call ends in JavaScript: with a value, with an `Error` made of a value (of a
string: with it as the message), with another exception, or not at all because the host
function failed. -/
inductive Completion where
  | returned (v : JsValue)
  | threwError (arg : JsValue)
  | threwOther (msg : String)
  | stopped (msg : String)

/-- Zero, negative zero and NaN are falsy. -/
def truthyNumber : JsonNumber → Bool
  | .posInt n => n != 0
  | .negInt n => n != 0
  | .float bits =>
    let magnitude := bits &&& 0x7FFFFFFFFFFFFFFF
    magnitude != 0 && !(magnitude > 0x7FF0000000000000)

def JsValue.truthy : JsValue → Bool
  | .undefined => false
  | .json .null => false
  | .json (.bool b) => b
  | .json (.number n) => truthyNumber n
  | .json (.string s) => s != ""
  | .json (.array _) => true
  | .json (.object _) => true

/-- The property of a value that is not `null`. -/
def member (j : Json) (key : String) : JsValue :=
  match j.field? key with
  | some v => .json v
  | none => .undefined

variable (js : JsJson)

/-- What `__sapphillon_dispatch` makes of the text the host function returned. -/
def readEnvelope (raw : String) : Completion :=
  match js.parse raw with
  | .error e => .threwOther e
  | .ok .null => .threwOther "cannot read property 'err' of null"
  | .ok reply =>
    if (member reply "err").truthy then .threwError (member reply "err")
    else .returned (member reply "ok")

/-- `globalThis.__sapphillon_dispatch`. -/
def sapphillonDispatch (dispatcher : PluginDispatcher Ctx) (time : Nat)
    (opKey argsJson : String) : Completion :=
  let request := js.stringify (.object [("op_key", .string opKey), ("args_json", .string argsJson)])
  match (sapphillonDispatchHost serde dispatcher time request).result with
  | .error e => .stopped e
  | .ok raw => readEnvelope js raw

/-! ### The run of `plugin.js` -/

inductive ConsoleMethod where
  | log
  | info
  | warn
  | error
  | debug
deriving DecidableEq, Repr

def ConsoleMethod.tag : ConsoleMethod → String
  | .log => ""
  | .info => "[INFO] "
  | .warn => "[WARN] "
  | .error => "[ERROR] "
  | .debug => "[DEBUG] "

/-- `_fmt`, on arguments already turned into texts one by one. -/
def fmt (args : List String) : String := " ".intercalate args

/-- The text a console function puts. -/
def consoleText (method : ConsoleMethod) (args : List String) : String := method.tag ++ fmt args

/-- What the evaluated sources do: they end or throw, or they call a console function or
the host function and go on. -/
inductive Script where
  | done
  | throw (msg : String)
  | console (method : ConsoleMethod) (args : List String) (next : Script)
  | dispatch (input : String) (resume : String → Script)

/-- `run_script` of `plugin.js`, from the texts captured so far. -/
def pluginRunScript (stdoutBuf : List String) : Script → Guest
  | .done => .finish (.ok ("\n".intercalate stdoutBuf))
  | .throw msg => .finish (.error msg)
  | .console method args next => pluginRunScript (stdoutBuf ++ [consoleText method args]) next
  | .dispatch input resume => .dispatch input fun reply => pluginRunScript stdoutBuf (resume reply)

/-- The engine module made of `plugin.js`. -/
def jsPlugin (load : Except String Unit) (script : String → Script) : EnginePlugin where
  new := load
  call input := pluginRunScript [] (script input)

end Sapphillon.JsEngine
