import Sapphillon.Traced

/-! `sapphillon_js_interface`: the dispatcher handed to the engine, and the engine's one
entry point. The context behind the pointer is opaque to the engine; what it does with the
pointer is recorded. -/
namespace Sapphillon.JsInterface

/-- The calls through the two function pointers of a dispatcher. -/
inductive CtxEvent (Ctx : Type) where
  | call (ctx : Ctx) (opName argsJson : String)
  | drop (ctx : Ctx)

/-- A copy of a dispatcher holds the same pointer. -/
structure PluginDispatcher (Ctx : Type) where
  ctx : Ctx
  callFn : Nat → Ctx → String → String → Except String String

variable {Ctx ε : Type}

def PluginDispatcher.call (d : PluginDispatcher Ctx) (time : Nat) (opName argsJson : String) :
    Traced (CtxEvent Ctx) ε (Except String String) := do
  Traced.emit (.call d.ctx opName argsJson)
  return d.callFn time d.ctx opName argsJson

/-- `(dispatcher.drop_fn)(dispatcher.ctx)`. -/
def PluginDispatcher.release (d : PluginDispatcher Ctx) : Traced (CtxEvent Ctx) ε Unit :=
  Traced.emit (.drop d.ctx)

/-- The exported module: a script with its pre-scripts runs at some moment and returns the
captured stdout or an error text. -/
structure JsEngineLib (Ctx : Type) where
  runScript : Nat → String → List String → PluginDispatcher Ctx →
    Traced (CtxEvent Ctx) String String

end Sapphillon.JsInterface
