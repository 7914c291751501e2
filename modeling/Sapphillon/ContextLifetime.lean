import Sapphillon.JsEngine
import Sapphillon.JsonText
import Sapphillon.Dispatch

/-! The life of the dispatcher context of one run: boxed by `run_script`, lent to the engine
through every copy of the dispatcher, and freed by the drop function. -/
namespace Sapphillon.ContextLifetime
open ExtPlugin JsInterface JsEngine JsonText Plugin Permission Sapphillon.Runtime Dispatch

variable {Ctx : Type}

/-- The context is called into any number of times, then dropped, once and for good. -/
def ReleasedOnce (ctx : Ctx) (events : List (CtxEvent Ctx)) : Prop :=
  ∃ calls, events = calls ++ [.drop ctx] ∧ ∀ e ∈ calls, ∃ opKey argsJson, e = .call ctx opKey argsJson

/-- The context is called into but never dropped. -/
def NeverReleased (ctx : Ctx) (events : List (CtxEvent Ctx)) : Prop :=
  ∀ e ∈ events, ∃ opKey argsJson, e = .call ctx opKey argsJson

theorem not_releasedOnce {ctx : Ctx} {events : List (CtxEvent Ctx)}
    (h : NeverReleased ctx events) : ¬ ReleasedOnce ctx events := by
  intro hreleased
  obtain ⟨calls, rfl, _⟩ := hreleased
  obtain ⟨_, _, he⟩ := h (.drop ctx) (List.mem_append_right _ (List.mem_singleton_self _))
  cases he

variable (serde : Serde)

/-- All three steps of a run succeed: the engine plugin loads, the input is serialised and
the script ends with an output. -/
def StepsSucceed (plugin : EnginePlugin) (time : Nat) (script : String)
    (preScripts : List String) (dispatcher : PluginDispatcher Ctx) : Prop :=
  plugin.new = .ok () ∧
    ∃ inputStr, serde.ofValue (scriptInput script preScripts) = .ok inputStr ∧
      ∃ stdout, (runGuest serde dispatcher time (plugin.call inputStr)).result = .ok stdout

theorem dispatchHost_events {dispatcher : PluginDispatcher Ctx} {time : Nat} {input : String} :
    NeverReleased dispatcher.ctx (sapphillonDispatchHost serde dispatcher time input).events := by
  intro e he
  simp only [sapphillonDispatchHost, PluginDispatcher.call, Traced.mem_bind, Traced.events_lift,
    List.not_mem_nil, false_or, Traced.events_emit, List.mem_singleton, Traced.events_pure,
    and_false, exists_false, or_false] at he
  obtain ⟨_, _, rfl⟩ := he
  exact ⟨_, _, rfl⟩

/-- However often the script calls back, the module only calls into the context. -/
theorem runGuest_events (dispatcher : PluginDispatcher Ctx) (time : Nat) (g : Guest) :
    NeverReleased dispatcher.ctx (runGuest serde dispatcher time g).events := by
  induction g generalizing time with
  | finish outcome => exact fun e he => by cases he
  | dispatch input resume ih =>
    intro e he
    rw [runGuest, Traced.mem_bind] at he
    obtain he | ⟨reply, _, he⟩ := he
    · exact dispatchHost_events serde e he
    · exact ih reply (time + 1) e he

/-- One run of the engine module: with all steps successful the context is released once,
otherwise never. -/
theorem runScriptImpl_events (plugin : EnginePlugin) (time : Nat) (script : String)
    (preScripts : List String) (dispatcher : PluginDispatcher Ctx) :
    (StepsSucceed serde plugin time script preScripts dispatcher →
      ReleasedOnce dispatcher.ctx
        (runScriptImpl serde plugin time script preScripts dispatcher).events) ∧
    (¬ StepsSucceed serde plugin time script preScripts dispatcher →
      NeverReleased dispatcher.ctx
        (runScriptImpl serde plugin time script preScripts dispatcher).events) := by
  unfold runScriptImpl
  cases hnew : plugin.new with
  | error e =>
    refine ⟨fun h => ?_, fun _ e he => by cases he⟩
    rw [h.1] at hnew
    cases hnew
  | ok u =>
    cases hser : serde.ofValue (scriptInput script preScripts) with
    | error e =>
      refine ⟨fun h => ?_, fun _ e he => by cases he⟩
      obtain ⟨_, _, hok, _⟩ := h
      rw [hok] at hser
      cases hser
    | ok inputStr =>
      have hcalls := runGuest_events serde dispatcher time (plugin.call inputStr)
      simp only [Except.mapError, Traced.lift_ok_bind]
      cases hrun : (runGuest serde dispatcher time (plugin.call inputStr)).result with
      | error e =>
        rw [Traced.bind_error _ hrun]
        refine ⟨fun h => ?_, fun _ => hcalls⟩
        obtain ⟨_, _, hok, stdout, hout⟩ := h
        rw [hser] at hok
        rw [← Except.ok.inj hok, hrun] at hout
        cases hout
      | ok stdout =>
        rw [Traced.bind_ok _ hrun]
        refine ⟨fun _ => ⟨_, rfl, hcalls⟩, fun h => ?_⟩
        exact absurd ⟨hnew, inputStr, hser, stdout, hrun⟩ h

variable (world : World)

/-- The context of a run is released exactly once, and not used afterwards, exactly when
the engine plugin loads, the input is serialised and the script succeeds. -/
theorem ctx_released_once_iff (plugin : Nat → EnginePlugin) (time : Nat) (script : String)
    (plugins : List PluginFunction) (workflowData : Option (Mutex OpStateWorkflowData))
    (preScript : Option (List String))
    (out : Traced (CtxEvent DispatchCtx) WorkflowRuntimeError (Mutex OpStateWorkflowData))
    (h : runScript world (some (ffiRunScript world.serde plugin)) time script plugins workflowData
      preScript = .ok out) :
    ReleasedOnce (buildCtx plugins (dataOf workflowData)) out.events ↔
      StepsSucceed world.serde (plugin time) time script
        (plugins.foldl routePlugin (preScript.getD [], [])).1
        ⟨buildCtx plugins (dataOf workflowData), dispatchCall world⟩ := by
  obtain ⟨hyes, hno⟩ := runScriptImpl_events world.serde (plugin time) time script
    (plugins.foldl routePlugin (preScript.getD [], [])).1
    ⟨buildCtx plugins (dataOf workflowData), dispatchCall world⟩
  rw [runScript_returned world h]
  constructor
  · intro hrel
    by_contra hfail
    exact not_releasedOnce (hno hfail) hrel
  · exact hyes

/-! ### A script with one call -/

/-- Texts of string objects as they are, and the input of the script below. -/
def lifetimeWorld : World where
  extism := sampleExtism
  serde :=
    { sampleSerde with
      value := readValue
      ofValue := fun j => .ok ((writeValue j).toOption.getD
        "\x7b\"pre_scripts\":[],\"script\":\"__sapphillon_dispatch('f', '\x7b\x7d')\"\x7d") }
  parseUrl _ := none

/-- The engine on that input: one call, then the given end. -/
def oneCall (outcome : Except String String) : EnginePlugin where
  new := .ok ()
  call _ := .dispatch (writeObject [("op_key", "f"), ("args_json", "\x7b\x7d")])
    fun _ => .finish outcome

def answering : InternalFnRef := ⟨"f", "f", fun _ _ => .ok (.object []), none⟩

theorem ctx_released_once_success :
    ∃ out, runScript lifetimeWorld
        (some (ffiRunScript lifetimeWorld.serde fun _ => oneCall (.ok "done"))) 0
        "__sapphillon_dispatch('f', '\x7b\x7d')" [.internal answering] none none = .ok out ∧
      ReleasedOnce (buildCtx [.internal answering] (dataOf none)) out.events := by
  refine ⟨_, rfl, ?_⟩
  exact (ctx_released_once_iff lifetimeWorld (fun _ => oneCall (.ok "done")) 0
    "__sapphillon_dispatch('f', '\x7b\x7d')" [.internal answering] none none _ rfl).mpr
    ⟨rfl, _, rfl, "done", rfl⟩

/-- A script that fails after its call leaks the context. -/
theorem ctx_leaked_on_script_error :
    ∃ out, runScript lifetimeWorld
        (some (ffiRunScript lifetimeWorld.serde fun _ => oneCall (.error "boom"))) 0
        "__sapphillon_dispatch('f', '\x7b\x7d')" [.internal answering] none none = .ok out ∧
      ¬ ReleasedOnce (buildCtx [.internal answering] (dataOf none)) out.events := by
  refine ⟨_, rfl, not_releasedOnce ?_⟩
  exact runGuest_events lifetimeWorld.serde
    ⟨buildCtx [.internal answering] (dataOf none), dispatchCall lifetimeWorld⟩ 0
    ((oneCall (.error "boom")).call "")

end Sapphillon.ContextLifetime
