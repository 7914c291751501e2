import Sapphillon.ScriptCalls
import Sapphillon.Stdout

/-! `run_script` of `plugin.js` on sources of the fragment, played against the host: the console
functions put texts, and each call of the host function is answered by the dispatcher of its
moment. -/
namespace Sapphillon.PluginRun
open JsEval JsEngine JsInterface ExtPlugin ShimRealm RemoteCall
open Sapphillon.Runtime

/-! ### The sources -/

/-- `x ?? ''`, where that is a text. -/
def textOr : JsValue → Option String
  | .undefined | .json .null => some ""
  | .json (.string s) => some s
  | _ => none

/-- `x ?? []`, where that is an array of texts. -/
def textsOr : JsValue → Option (List String)
  | .undefined | .json .null => some []
  | .json (.array items) => items.mapM Json.asStr?
  | _ => none

section Fragment
variable (js : JsJson) (host : JsHost) (strict : Bool) (n : Nat) (realm : JsHeap)

/-- `run_script` up to its output, from the globals it starts with. -/
def runScript (input : String) : Run JsHeap :=
  match js.parse input with
  | .error e => Asking.stop (.host (.threwOther e))
  | .ok .null => Asking.stop (.error "cannot read property 'script'")
  | .ok j =>
    match textOr (member j "script"), textsOr (member j "pre_scripts") with
    | some script, some preScripts => do
      let h ← evalSources host strict n preScripts realm
      evalSource host strict n script h
    | _, _ => Asking.stop .outside

end Fragment

/-! ### The engine module -/

/-- A script that does what an evaluation does, as far as the fragment goes; what stops the
evaluation is reported as a text. -/
inductive Follows (report : Stop Completion → String) {α : Type} : Run α → Script → Prop where
  | done (a : α) : Follows report (.done (.ok a)) .done
  | threw (stop : Stop Completion) : Follows report (.done (.error stop)) (.throw (report stop))
  | outside (script : Script) : Follows report (.done (.error .outside)) script
  | console {method : ConsoleMethod} {args : List String} {resume : Unit → Run α} {next : Script}
      (follows : Follows report (resume ()) next) :
      Follows report (.ask (ModuleCall.console method args) resume) (.console method args next)
  | dispatch {input : String} {resume : String → Run α} {resume' : String → Script}
      (follows : ∀ reply, Follows report (resume reply) (resume' reply)) :
      Follows report (.ask (ModuleCall.dispatch input) resume) (.dispatch input resume')

/-- The engine module loads, and its `run_script` is the one of `plugin.js` over an evaluator
that agrees with the fragment. -/
def RunsPluginJs (js : JsJson) (host : JsHost) (strict : Bool) (n : Nat) (realm : JsHeap)
    (report : Stop Completion → String) (plugin : EnginePlugin) : Prop :=
  ∃ script : String → Script, plugin = jsPlugin (.ok ()) script ∧
    ∀ input, Follows report (runScript js host strict n realm input) (script input)

/-- The script of an evaluator of the fragment alone. -/
def toScript (report : Stop Completion → String) {α : Type} : Run α → Script
  | .done (.ok _) => .done
  | .done (.error stop) => .throw (report stop)
  | .ask (.console method args) resume => .console method args (toScript report (resume ()))
  | .ask (.dispatch input) resume => .dispatch input fun reply => toScript report (resume reply)

theorem follows_toScript (report : Stop Completion → String) {α : Type} (x : Run α) :
    Follows report x (toScript report x) := by
  induction x with
  | done r =>
    cases r with
    | ok a => exact .done a
    | error stop => exact .threw stop
  | ask q resume ih =>
    cases q with
    | console method args => exact .console (ih ())
    | dispatch input => exact .dispatch ih

theorem runsPluginJs_toScript (js : JsJson) (host : JsHost) (strict : Bool) (n : Nat)
    (realm : JsHeap) (report : Stop Completion → String) :
    RunsPluginJs js host strict n realm report
      (jsPlugin (.ok ()) fun input => toScript report (runScript js host strict n realm input)) :=
  ⟨_, rfl, fun _ => follows_toScript report _⟩

/-! ### The play -/

/-- Where a run of the module stands: the moment, and the texts captured so far. -/
structure Moment where
  time : Nat
  stdoutBuf : List String

section Play
variable (serde : Serde) {Ctx : Type} (dispatcher : PluginDispatcher Ctx)

def answer : (q : ModuleCall) → Moment → Except String q.Reply × Moment
  | .console method args, s => (.ok (), { s with stdoutBuf := s.stdoutBuf ++ [consoleText method args] })
  | .dispatch input, s =>
    ((sapphillonDispatchHost serde dispatcher s.time input).result, { s with time := s.time + 1 })

abbrev play {α : Type} (x : Run α) (s : Moment) : Except (Stop Completion ⊕ String) α × Moment :=
  Asking.play (answer serde dispatcher) x s

/-- The output of the module, or its error. -/
def output {α : Type} (report : Stop Completion → String) :
    Except (Stop Completion ⊕ String) α × Moment → Except String String
  | (.ok _, s) => .ok ("\n".intercalate s.stdoutBuf)
  | (.error (.inl stop), _) => .error (report stop)
  | (.error (.inr e), _) => .error e

variable {serde dispatcher}

theorem answer_dispatch {s : Moment} {input : String} {r : Except String String}
    (h : (sapphillonDispatchHost serde dispatcher s.time input).result = r) :
    answer serde dispatcher (.dispatch input) s = (r, { s with time := s.time + 1 }) :=
  congrArg (fun r => (r, ({ s with time := s.time + 1 } : Moment))) h

/-- A run that stays inside the fragment ends the way its evaluation plays. -/
theorem runGuest_follows {report : Stop Completion → String} {α : Type} {x : Run α}
    {script : Script} (hfollows : Follows report x script) {s : Moment}
    (hinside : (play serde dispatcher x s).1 ≠ .error (.inl .outside)) :
    (runGuest serde dispatcher s.time (pluginRunScript s.stdoutBuf script)).result =
      output report (play serde dispatcher x s) := by
  induction hfollows generalizing s with
  | done a => rfl
  | threw stop => rfl
  | outside script => exact absurd rfl hinside
  | console follows ih => exact ih (s := { s with stdoutBuf := _ }) hinside
  | @dispatch input resume resume' follows ih =>
    rw [pluginRunScript, runGuest, Traced.result_bind]
    cases hhost : (sapphillonDispatchHost serde dispatcher s.time input).result with
    | error e =>
      have hplay : play serde dispatcher (.ask (ModuleCall.dispatch input) resume) s =
          (.error (.inr e), { s with time := s.time + 1 }) :=
        Asking.play_ask_error (answer_dispatch hhost)
      rw [hplay]
      rfl
    | ok reply =>
      have hplay : play serde dispatcher (.ask (ModuleCall.dispatch input) resume) s =
          play serde dispatcher (resume reply) { s with time := s.time + 1 } :=
        Asking.play_ask_ok (answer_dispatch hhost)
      rw [hplay] at hinside ⊢
      exact ih reply hinside

theorem sapphillonDispatch_request (js : JsJson) (time : Nat) (opKey argsJson : String) :
    sapphillonDispatch serde js dispatcher time opKey argsJson =
      match (sapphillonDispatchHost serde dispatcher time (request js opKey argsJson)).result with
      | .error e => .stopped e
      | .ok raw => readEnvelope js raw := rfl

/-- A dispatch is answered by the dispatcher of its moment, unless the host function fails. -/
theorem play_askDispatch {js : JsJson} {s : Moment} {opKey argsJson : String} {c : Completion}
    (hc : sapphillonDispatch serde js dispatcher s.time opKey argsJson = c)
    (hc' : ∀ e, c ≠ .stopped e) :
    play serde dispatcher (askDispatch js opKey argsJson) s =
      ((outcome c).mapError .inl, { s with time := s.time + 1 }) := by
  rw [sapphillonDispatch_request] at hc
  cases hhost : (sapphillonDispatchHost serde dispatcher s.time (request js opKey argsJson)).result with
  | error e =>
    rw [hhost] at hc
    exact absurd hc.symm (hc' e)
  | ok raw =>
    rw [hhost] at hc
    rw [← hc]
    exact Asking.play_ask_ok (answer_dispatch hhost)

/-- A call of a shim plays as the call that ends with the dispatcher's answer. -/
theorem play_askShim {js : JsJson} {toText : JsValue → String} {s : Moment} {key : String}
    {args : JsValue} {c : Completion}
    (hc : shimCall js toText (sapphillonDispatch serde js dispatcher s.time) key args = c)
    (hc' : ∀ e, c ≠ .stopped e) :
    play serde dispatcher (askShim js toText key (js.stringify (shimArgs args))) s =
      ((outcome c).mapError .inl, { s with time := s.time + 1 }) := by
  rw [shimCall] at hc
  cases hd : sapphillonDispatch serde js dispatcher s.time key (js.stringify (shimArgs args)) with
  | returned raw =>
    rw [hd] at hc
    rw [← hc]
    have hplay := play_askDispatch hd (by simp)
    exact Asking.play_bind_ok hplay
  | threwError e =>
    rw [hd] at hc
    rw [← hc]
    exact Asking.play_bind_error (play_askDispatch hd (by simp))
  | threwOther msg =>
    rw [hd] at hc
    rw [← hc]
    exact Asking.play_bind_error (play_askDispatch hd (by simp))
  | stopped e =>
    rw [hd] at hc
    exact absurd hc.symm (hc' e)

end Play

end Sapphillon.PluginRun
