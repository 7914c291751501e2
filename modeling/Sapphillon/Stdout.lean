import Sapphillon.Dispatch
import Sapphillon.JsEngine
import Sapphillon.Workflow

/-! Captured stdout on its way from the console functions to the result of a workflow: it is
joined in `plugin.js`, cut at its newlines and filtered in `run_script`, and joined again. -/
namespace Sapphillon.Stdout
open Lines ExtPlugin JsEngine JsInterface Proto Sapphillon.Runtime Dispatch Workflow

/-- A text without its empty lines. -/
def dropEmptyLines (text : String) : String :=
  String.ofList (['\n'].intercalate (lines '\n' text.toList))

/-- No line of a text is empty. -/
def AllLinesFilled (text : String) : Prop := [] ∉ text.toList.splitOn '\n'

instance (text : String) : Decidable (AllLinesFilled text) := inferInstanceAs (Decidable (¬ _))

section Capture
variable (serde : Serde) {Ctx : Type} (dispatcher : PluginDispatcher Ctx)

/-- The texts the console functions put along a run. -/
def pushed (time : Nat) : Script → List String
  | .done | .throw _ => []
  | .console method args next => consoleText method args :: pushed time next
  | .dispatch input resume =>
    match (sapphillonDispatchHost serde dispatcher time input).result with
    | .ok reply => pushed (time + 1) (resume reply)
    | .error _ => []

variable {serde dispatcher}

/-- A run that succeeds outputs the texts it put, joined. -/
theorem runGuest_pluginRunScript {script : Script} {stdoutBuf : List String} {time : Nat}
    {out : String}
    (h : (runGuest serde dispatcher time (pluginRunScript stdoutBuf script)).result = .ok out) :
    out = "\n".intercalate (stdoutBuf ++ pushed serde dispatcher time script) := by
  induction script generalizing stdoutBuf time with
  | done => simpa [pluginRunScript, runGuest, pushed] using h.symm
  | throw msg => simp [pluginRunScript, runGuest] at h
  | console method args next ih => simpa [pushed] using ih h
  | dispatch input resume ih =>
    rw [pluginRunScript, runGuest, Traced.bind_eq_ok] at h
    obtain ⟨reply, hreply, h⟩ := h
    rw [pushed, hreply]
    exact ih reply h

/-- A run that succeeds gave the engine plugin its serialised input. -/
theorem guest_of_runScriptImpl {plugin : EnginePlugin} {time : Nat} {script : String}
    {preScripts : List String} {out : String}
    (h : (runScriptImpl serde plugin time script preScripts dispatcher).result = .ok out) :
    ∃ input, serde.ofValue (scriptInput script preScripts) = .ok input ∧
      (runGuest serde dispatcher time (plugin.call input)).result = .ok out := by
  simp only [runScriptImpl, Traced.bind_eq_ok, Traced.result_lift, Traced.mapError_eq_ok] at h
  obtain ⟨_, _, input, hinput, stdout, hguest, _, _, hout⟩ := h
  obtain rfl : stdout = out := by simpa using hout
  exact ⟨input, hinput, hguest⟩

end Capture

/-! ### The result of a workflow -/

variable (world : World)

/-- A fresh buffer takes up an output without its empty lines. -/
theorem stdoutToString_ingest {data : OpStateWorkflowData} (h : data.stdoutBuf = [])
    (out : String) : (ingest data out).stdoutToString = dropEmptyLines out := by
  rw [← String.toList_inj, toList_stdoutToString, ingest_eq, h]
  simp [entries, dropEmptyLines, List.map_map, Function.comp_def]

/-- Dropping the empty lines keeps exactly the joins of no text, of one empty text, and of
texts without empty lines. -/
theorem dropEmptyLines_intercalate_iff (texts : List String) :
    dropEmptyLines ("\n".intercalate texts) = "\n".intercalate texts ↔
      texts = [] ∨ texts = [""] ∨ ∀ t ∈ texts, AllLinesFilled t := by
  have hsep : "\n".toList = ['\n'] := by decide
  have hempty : texts.map String.toList = [[]] ↔ texts = [""] := by
    rw [List.map_eq_singleton_iff]
    simp [String.toList_eq_nil_iff]
  rw [← String.toList_inj, dropEmptyLines, String.toList_ofList, String.toList_intercalate, hsep,
    intercalate_lines_intercalate_iff, List.map_eq_nil_iff, hempty]
  simp [AllLinesFilled]

/-- The stdout of a successful run is the output of the engine plugin, the joined texts of
the console functions, without its empty lines; it is the output itself exactly when there
was no text, one empty text, or no text with an empty line. -/
theorem stdout_keeps_filled_lines (load : Nat → Except String Unit) (js : Nat → String → Script)
    (time : Nat) (elapsedMs : Int64) (w : CoreWorkflowCode) (out : String)
    (h : (w.answer world (ffiRunScript world.serde fun t => jsPlugin (load t) (js t)) time).result =
      .ok out) :
    ∃ input texts r, world.serde.ofValue (scriptInput w.code w.preScripts) = .ok input ∧
      texts = pushed world.serde (w.dispatcher world) time (js time input) ∧
      out = "\n".intercalate texts ∧
      w.run world (some (ffiRunScript world.serde fun t => jsPlugin (load t) (js t))) time
        elapsedMs = .ok (w.pushResult r) ∧
      r.status = WorkflowStatus.ok.toI32 ∧ r.stdout = dropEmptyLines out ∧
      (r.stdout = out ↔ texts = [] ∨ texts = [""] ∨ ∀ t ∈ texts, AllLinesFilled t) := by
  have hrun := CoreWorkflowCode.run_some world
    (ffiRunScript world.serde fun t => jsPlugin (load t) (js t)) time elapsedMs w
  rw [h] at hrun
  obtain ⟨input, hinput, hguest⟩ := guest_of_runScriptImpl h
  have hout := runGuest_pluginRunScript hguest
  have hstdout : (w.resultOf elapsedMs (.ok out)).stdout = dropEmptyLines out :=
    stdoutToString_ingest rfl out
  refine ⟨input, _, _, hinput, rfl, hout, hrun, rfl, hstdout, ?_⟩
  rw [hstdout, hout]
  exact dropEmptyLines_intercalate_iff _

/-! ### Scripts of console calls -/

/-- The input of a script without shims, as `serde_json` writes it. -/
def consoleWorld (script : String) : World :=
  { sampleWorld with
    serde := { sampleSerde with
      ofValue := fun _ => .ok ("\x7b\"pre_scripts\":[],\"script\":\"" ++ script ++ "\"\x7d") } }

theorem stdout_keeps_two_lines :
    ∃ r, (CoreWorkflowCode.new "w" "console.log('a\\nb'); console.warn('c')" [] 1 [] []).run
        (consoleWorld "console.log('a\\\\nb'); console.warn('c')")
        (some (ffiRunScript (consoleWorld "console.log('a\\\\nb'); console.warn('c')").serde
          fun _ => jsPlugin (.ok ()) fun _ =>
            .console .log ["a\nb"] (.console .warn ["c"] .done))) 0 7 =
        .ok ((CoreWorkflowCode.new "w" "console.log('a\\nb'); console.warn('c')" [] 1 [] []).pushResult
          r) ∧ r.stdout = "a\nb\n[WARN] c" := by
  obtain ⟨_, _, r, _, rfl, _, hrun, _, _, hexact⟩ := stdout_keeps_filled_lines
    (consoleWorld "console.log('a\\\\nb'); console.warn('c')") (fun _ => .ok ())
    (fun _ _ => .console .log ["a\nb"] (.console .warn ["c"] .done)) 0 7
    (CoreWorkflowCode.new "w" "console.log('a\\nb'); console.warn('c')" [] 1 [] [])
    "a\nb\n[WARN] c" (by rfl)
  exact ⟨r, hrun, hexact.mpr (Or.inr (Or.inr (by decide)))⟩

/-- A blank line between two lines is lost. -/
theorem stdout_drops_blank_line :
    let w := CoreWorkflowCode.new "w" "console.log('a'); console.log(''); console.log('b')" [] 1 [] []
    let world := consoleWorld "console.log('a'); console.log(''); console.log('b')"
    let lib := ffiRunScript world.serde fun _ => jsPlugin (.ok ()) fun _ =>
      .console .log ["a"] (.console .log [""] (.console .log ["b"] .done))
    (w.answer world lib 0).result = .ok "a\n\nb" ∧
      w.run world (some lib) 0 7 =
        .ok (w.pushResult ⟨WorkflowStatus.ok.toI32, "a\nb", 7, ""⟩) := by
  intro w world lib
  have hanswer : (w.answer world lib 0).result = .ok "a\n\nb" := by rfl
  refine ⟨hanswer, ?_⟩
  rw [CoreWorkflowCode.run_some, hanswer]
  rfl

end Sapphillon.Stdout
