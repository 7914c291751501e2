import Sapphillon.Json

/-! `plugin/mod.rs`: internal functions with their handlers, external functions with the
shim that routes a call of theirs through the dispatcher, and the packages of both. -/
namespace Sapphillon.Plugin

/-- What a handler answers; it may answer differently from one moment to the next. -/
abbrev Handler := Nat → Json → Except String Json

structure PluginIdentifier where
  packageId : String
  functionName : String
deriving DecidableEq, Repr

structure CorePluginFunction where
  id : String
  name : String
  func : Handler
  preRunJs : Option String

structure CorePluginPackage where
  id : String
  name : String
  functions : List CorePluginFunction

structure CorePluginExternalFunction where
  id : String
  name : String
  description : String
  authorId : String
  packageId : String
deriving DecidableEq, Repr

structure CorePluginExternalPackage where
  id : String
  name : String
  functions : List CorePluginExternalFunction
  wasmPath : String
deriving DecidableEq, Repr

structure InternalFnRef where
  id : String
  name : String
  func : Handler
  preRunJs : Option String

structure ExternalFnRef where
  id : String
  name : String
  packageId : String
deriving DecidableEq, Repr

/-- `Box<dyn PluginFunctionTrait>` as `get_functions` builds it. An external function has
no handler: its `call` is `unreachable!`. -/
inductive PluginFunction where
  | internal (f : InternalFnRef)
  | external (f : ExternalFnRef)

/-- `Arc<dyn PluginPackageTrait>`. -/
inductive PluginPackage where
  | core (p : CorePluginPackage)
  | external (p : CorePluginExternalPackage)

/-- The key an external function is dispatched under. -/
def opKey (packageId name : String) : String := packageId ++ "::" ++ name

/-- The script that installs an external function; the names are pasted in as they are. -/
def externalShim (pkg func : String) : String :=
  "\nglobalThis.Sapphillon = globalThis.Sapphillon ?? \x7b\x7d;\n" ++
  "globalThis.Sapphillon[\"" ++ pkg ++ "\"] = globalThis.Sapphillon[\"" ++ pkg ++
    "\"] ?? \x7b\x7d;\n" ++
  "globalThis.Sapphillon[\"" ++ pkg ++ "\"][\"" ++ func ++ "\"] = function(args) \x7b\n" ++
  "    const raw = __sapphillon_dispatch(\n" ++
  "        \"" ++ opKey pkg func ++ "\",\n" ++
  "        JSON.stringify(args ?? \x7b\x7d)\n" ++
  "    );\n" ++
  "    return JSON.parse(raw);\n" ++
  "\x7d;\n"

def CorePluginExternalFunction.getPreRunJs (f : CorePluginExternalFunction) : Option String :=
  some (externalShim f.packageId f.name)

def ExternalFnRef.getPreRunJs (f : ExternalFnRef) : Option String :=
  some (externalShim f.packageId f.name)

namespace PluginFunction

def isExternal : PluginFunction → Bool
  | internal _ => false
  | external _ => true

def getFunctionId : PluginFunction → String
  | internal f => f.id
  | external f => f.id

def getPreRunJs : PluginFunction → Option String
  | internal f => f.preRunJs
  | external f => f.getPreRunJs

end PluginFunction

def CorePluginFunction.toRef (f : CorePluginFunction) : InternalFnRef :=
  ⟨f.id, f.name, f.func, f.preRunJs⟩

def CorePluginExternalFunction.toRef (f : CorePluginExternalFunction) : ExternalFnRef :=
  ⟨f.id, f.name, f.packageId⟩

def CorePluginPackage.getFunctions (p : CorePluginPackage) : List PluginFunction :=
  p.functions.map fun f => .internal f.toRef

def CorePluginExternalPackage.getFunctions (p : CorePluginExternalPackage) : List PluginFunction :=
  p.functions.map fun f => .external f.toRef

namespace PluginPackage

def isExternal : PluginPackage → Bool
  | core _ => false
  | external _ => true

def asExternalPackage : PluginPackage → Option CorePluginExternalPackage
  | core _ => none
  | external p => some p

def getFunctions : PluginPackage → List PluginFunction
  | core p => p.getFunctions
  | external p => p.getFunctions

end PluginPackage

theorem mem_getFunctions_internal {p : PluginPackage} {f : InternalFnRef} :
    .internal f ∈ p.getFunctions ↔ ∃ c, p = .core c ∧ ∃ g ∈ c.functions, g.toRef = f := by
  cases p <;> simp [PluginPackage.getFunctions, CorePluginPackage.getFunctions,
    CorePluginExternalPackage.getFunctions]

end Sapphillon.Plugin
