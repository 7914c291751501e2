import Sapphillon.RunTrace
import Sapphillon.Stdout

/-! Two runs of one workflow under different grants: the grants recorded under names the first
run never routes a call to make no difference to anything the run does or returns. -/
namespace Sapphillon.GrantIsolation
open ExtPlugin JsInterface JsEngine Plugin Permission Proto
open Sapphillon.Runtime Dispatch Workflow RunTrace

variable {world : World}

/-- The context with other grants. -/
def withGrants (ctx : DispatchCtx) (allowed : List PluginFunctionPermissions) : DispatchCtx :=
  { ctx with allowedPermissions := allowed }

/-- Where a call leads the two contexts hold the same grants, under the name it leads to. -/
def Agrees (ctx : DispatchCtx) (allowed : List PluginFunctionPermissions) (key : String) : Prop :=
  ∀ pkg name, externalRoute ctx key = some (pkg, name) →
    recorded allowed [name] = recorded ctx.allowedPermissions [name]

/-- One call depends on the grants under the name it is routed to, and on no others. -/
theorem dispatchImpl_withGrants {ctx : DispatchCtx} {allowed : List PluginFunctionPermissions}
    {key : String} (h : Agrees ctx allowed key) (time : Nat) (argsJson : String) :
    dispatchImpl world time (withGrants ctx allowed) key argsJson =
      dispatchImpl world time ctx key argsJson := by
  cases hi : ctx.internal.lookup key with
  | some func =>
    have hi' : (withGrants ctx allowed).internal.lookup key = some func := hi
    rw [dispatchImpl_internal world hi, dispatchImpl_internal world hi']
  | none =>
    have hi' : (withGrants ctx allowed).internal.lookup key = none := hi
    cases hroute : externalRoute ctx key with
    | none =>
      have hroute' : externalRoute (withGrants ctx allowed) key = none := hroute
      rw [dispatchImpl_unknown world hi hroute, dispatchImpl_unknown world hi' hroute']
    | some route =>
      obtain ⟨pkg, name⟩ := route
      have hroute' : externalRoute (withGrants ctx allowed) key = some (pkg, name) := hroute
      rw [dispatchImpl_external world hi hroute, dispatchImpl_external world hi' hroute']
      simp only [dispatchExternal, findAllowedPermissions, withGrants, h pkg name hroute]

theorem dispatchHostInlined_withGrants {ctx : DispatchCtx}
    {allowed : List PluginFunctionPermissions} {time : Nat} {input : String}
    (h : ∀ key argsJson, .call ctx key argsJson ∈
        (sapphillonDispatchHost world.serde ⟨ctx, dispatchCall world⟩ time input).events →
      Agrees ctx allowed key) :
    dispatchHostInlined world (withGrants ctx allowed) time input =
      dispatchHostInlined world ctx time input := by
  cases hreq : world.serde.value input with
  | error e => simp only [dispatchHostInlined, hreq, Traced.lift_error_bind]
  | ok req =>
    simp only [dispatchHostInlined, hreq, Traced.lift_ok_bind]
    rw [dispatchImpl_withGrants (h _ (((req.field? "args_json").bind Json.asStr?).getD "\x7b\x7d") ?_)]
    simp only [sapphillonDispatchHost, hreq, Traced.lift_ok_bind]
    exact Traced.mem_bind.mpr (Or.inl (.head _))

/-- Step by step the module gets the same replies, so it goes the same way. -/
theorem runGuestInlined_withGrants {ctx : DispatchCtx} {allowed : List PluginFunctionPermissions}
    {time : Nat} {g : Guest}
    (h : ∀ key argsJson, .call ctx key argsJson ∈
        (runGuest world.serde ⟨ctx, dispatchCall world⟩ time g).events → Agrees ctx allowed key) :
    runGuestInlined world (withGrants ctx allowed) time g = runGuestInlined world ctx time g := by
  induction g generalizing time with
  | finish outcome => rfl
  | dispatch input resume ih =>
    have hhost : dispatchHostInlined world (withGrants ctx allowed) time input =
        dispatchHostInlined world ctx time input :=
      dispatchHostInlined_withGrants fun key argsJson hmem =>
        h key argsJson (Traced.mem_bind.mpr (Or.inl hmem))
    rw [runGuestInlined, runGuestInlined, hhost]
    cases hr : (dispatchHostInlined world ctx time input).result with
    | error e => rw [Traced.bind_error _ hr, Traced.bind_error _ hr]
    | ok reply =>
      have hreply : (sapphillonDispatchHost world.serde ⟨ctx, dispatchCall world⟩ time input).result =
          .ok reply := by
        rwa [(dispatchHost_inlined world ctx time input).1] at hr
      rw [Traced.bind_ok _ hr, Traced.bind_ok _ hr, ih reply fun key argsJson hmem =>
        h key argsJson (Traced.mem_bind.mpr (Or.inr ⟨reply, hreply, hmem⟩))]

theorem runScriptInlined_withGrants {ctx : DispatchCtx} {allowed : List PluginFunctionPermissions}
    {plugin : EnginePlugin} {time : Nat} {script : String} {preScripts : List String}
    (h : ∀ key argsJson, .call ctx key argsJson ∈
        (runScriptImpl world.serde plugin time script preScripts ⟨ctx, dispatchCall world⟩).events →
      Agrees ctx allowed key) :
    runScriptInlined world plugin time script preScripts (withGrants ctx allowed) =
      runScriptInlined world plugin time script preScripts ctx := by
  cases hnew : plugin.new with
  | error e => simp only [runScriptInlined, hnew, Except.mapError, Traced.lift_error_bind]
  | ok u =>
    cases hinput : world.serde.ofValue (scriptInput script preScripts) with
    | error e =>
      simp only [runScriptInlined, hnew, hinput, Except.mapError, Traced.lift_ok_bind,
        Traced.lift_error_bind]
    | ok inputStr =>
      simp only [runScriptInlined, hnew, hinput, Except.mapError, Traced.lift_ok_bind]
      refine runGuestInlined_withGrants fun key argsJson hmem => h key argsJson ?_
      simp only [runScriptImpl, hnew, hinput, Except.mapError, Traced.lift_ok_bind]
      exact Traced.mem_bind.mpr (Or.inl hmem)

/-- The entry of a result depends on nothing in the workflow. -/
theorem resultOf_eq (w w' : CoreWorkflowCode) (elapsedMs : Int64) (outcome : Except String String) :
    w.resultOf elapsedMs outcome = w'.resultOf elapsedMs outcome := by
  cases outcome with
  | error msg => rfl
  | ok stdout =>
    have hbuf (v : CoreWorkflowCode) : v.workflowData.stdoutBuf = [] := rfl
    simp only [CoreWorkflowCode.resultOf, Stdout.stdoutToString_ingest (hbuf w),
      Stdout.stdoutToString_ingest (hbuf w')]

def widerGrants : List PluginFunctionPermissions :=
  [⟨"write", ⟨[Permission.new .allowAll ""]⟩⟩, ⟨"read", ⟨[Permission.new .filesystemRead "/data"]⟩⟩]

end Sapphillon.GrantIsolation
