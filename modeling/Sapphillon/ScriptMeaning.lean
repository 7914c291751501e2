import Sapphillon.RemoteCall

/-! What a script of calls is for: expressions of remote calls, without keys, shims, envelopes or
texts of JSON between the script and the modules, and what their statements put. -/
namespace Sapphillon.ScriptMeaning
open ExtPlugin JsEngine Plugin RemoteCall
open Sapphillon.Runtime Workflow

/-- An object of texts, or the answer of an external function to the value of an expression. -/
inductive CallExpr where
  | literal (fields : List (String × String))
  | call (pkg func : String) (arg : CallExpr)

/-- The value of the expression is put by a console function, or dropped. -/
inductive CallStmt where
  | print (method : ConsoleMethod) (e : CallExpr)
  | run (e : CallExpr)

def CallStmt.expr : CallStmt → CallExpr
  | .print _ e | .run e => e

/-- The functions an expression calls. -/
def CallExpr.calls : CallExpr → List (String × String)
  | .literal _ => []
  | .call pkg func arg => (pkg, func) :: arg.calls

def texts (fields : List (String × String)) : List (String × Json) :=
  fields.map fun f => (f.1, .string f.2)

/-- The package has a function of these names. -/
def Provides (packages : List PluginPackage) (pkg func : String)
    (p : CorePluginExternalPackage) : Prop :=
  .external p ∈ packages ∧ ∃ f ∈ p.functions, f.packageId = pkg ∧ f.name = func

section Meaning
variable (world : World) (w : CoreWorkflowCode)

/-- From one moment to another an expression yields the fields of an object, or the text of the
first error. The fields of an object may come in any order. -/
inductive Yields : Nat → CallExpr → Nat → Except String (List (String × Json)) → Prop where
  | literal {t : Nat} (fields : List (String × String)) :
      Yields t (.literal fields) t (.ok (texts fields))
  | returned {t t' : Nat} {pkg func : String} {arg : CallExpr}
      {fields sent out : List (String × Json)} {p : CorePluginExternalPackage}
      {returns : RsJsBridgeReturns} (harg : Yields t arg t' (.ok fields))
      (provides : Provides w.pluginPackages pkg func p) (hsent : sent.Perm fields)
      (hcall : remoteCall world t' w.dispatchCtx p func sent = .ok returns)
      (hout : out.Perm returns.args) : Yields t (.call pkg func arg) (t' + 1) (.ok out)
  | threw {t t' : Nat} {pkg func msg : String} {arg : CallExpr} {fields sent : List (String × Json)}
      {p : CorePluginExternalPackage} (harg : Yields t arg t' (.ok fields))
      (provides : Provides w.pluginPackages pkg func p) (hsent : sent.Perm fields)
      (hcall : remoteCall world t' w.dispatchCtx p func sent = .error msg) :
      Yields t (.call pkg func arg) (t' + 1) (.error msg)
  | stuck {t t' : Nat} {pkg func msg : String} {arg : CallExpr}
      (harg : Yields t arg t' (.error msg)) : Yields t (.call pkg func arg) t' (.error msg)

/-- The texts that the statements of a script put, or the text of the first error. -/
inductive Prints (stringify : Json → String) :
    Nat → List CallStmt → Except String (List String) → Prop where
  | done {t : Nat} : Prints stringify t [] (.ok [])
  | print {t t' : Nat} {method : ConsoleMethod} {e : CallExpr} {rest : List CallStmt}
      {fields : List (String × Json)} {r : Except String (List String)}
      (he : Yields world w t e t' (.ok fields)) (hrest : Prints stringify t' rest r) :
      Prints stringify t (.print method e :: rest)
        (r.map (consoleText method [stringify (.object fields)] :: ·))
  | run {t t' : Nat} {e : CallExpr} {rest : List CallStmt} {fields : List (String × Json)}
      {r : Except String (List String)} (he : Yields world w t e t' (.ok fields))
      (hrest : Prints stringify t' rest r) : Prints stringify t (.run e :: rest) r
  | threw {t t' : Nat} {s : CallStmt} {rest : List CallStmt} {msg : String}
      (he : Yields world w t s.expr t' (.error msg)) : Prints stringify t (s :: rest) (.error msg)

end Meaning

end Sapphillon.ScriptMeaning
