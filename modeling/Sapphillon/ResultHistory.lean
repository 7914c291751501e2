import Sapphillon.Stdout
import Sapphillon.WorkflowRuns

/-! The result list of a workflow as the log of its runs: one entry for each run, in order, made
of what the engine answered to the workflow as it was at the start, and each entry either an
output without an error or an error without an output. -/
namespace Sapphillon.ResultHistory
open Lines StepRun Proto Stdout Sapphillon.Runtime Dispatch Workflow WorkflowRuns

variable (world : World)

/-! ### One entry -/

/-- An entry of a successful run has no error text and no empty line in its output; an entry of
a failed run has no output, and one line of the error's text. -/
inductive Consistent (r : WorkflowResult) : Prop where
  | ok (status : r.status = WorkflowStatus.ok.toI32) (error : r.errorMessage = "")
      (stdout : r.stdout = "" ∨ AllLinesFilled r.stdout)
  | error (status : r.status = WorkflowStatus.error.toI32) (stdout : r.stdout = "")
      (line : ∃ line : String, '\n' ∉ line.toList ∧
        r.errorMessage = "workflow runtime error: WorkflowScriptExecuteError: " ++ line)

/-- Dropping the empty lines leaves nothing, or filled lines only. -/
theorem dropEmptyLines_filled (text : String) :
    dropEmptyLines text = "" ∨ AllLinesFilled (dropEmptyLines text) := by
  by_cases h : lines '\n' text.toList = []
  · refine Or.inl ?_
    rw [dropEmptyLines, h]
    rfl
  · refine Or.inr fun hmem => ?_
    have hlines {l : List Char} (hl : l ∈ lines '\n' text.toList) : l ≠ [] ∧ '\n' ∉ l :=
      of_mem_lines hl
    rw [dropEmptyLines, String.toList_ofList, splitOn_intercalate_eq h, List.mem_flatMap] at hmem
    obtain ⟨l, hl, hempty⟩ := hmem
    rw [List.splitOn_eq_singleton (hlines hl).2] at hempty
    exact (hlines hl).1 (List.mem_singleton.mp hempty).symm

/-- The message of a script error is one line. -/
theorem newline_not_mem_firstLine (msg : String) : '\n' ∉ (firstLine msg).toList := by
  have hline : '\n' ∉ msg.toList.takeWhile (· != '\n') := fun hmem => by
    simpa using List.mem_takeWhile_imp hmem
  unfold firstLine
  rw [List.span_eq_takeWhile_dropWhile]
  split
  rename_i line rest hspan
  obtain ⟨rfl, rfl⟩ := Prod.mk.inj hspan
  split
  · rename_i hrest
    have hsplit := List.takeWhile_append_dropWhile (p := (· != '\n')) (l := msg.toList)
    rw [List.isEmpty_iff.mp hrest, List.append_nil] at hsplit
    rwa [hsplit] at hline
  · split
    · rw [String.toList_ofList]
      exact fun hmem => hline (List.mem_of_mem_dropLast hmem)
    · rw [String.toList_ofList]
      exact hline

theorem consistent_resultOf (w : CoreWorkflowCode) (elapsedMs : Int64)
    (outcome : Except String String) : Consistent (w.resultOf elapsedMs outcome) := by
  cases outcome with
  | ok out =>
    have hstdout : (w.resultOf elapsedMs (.ok out)).stdout = dropEmptyLines out :=
      stdoutToString_ingest rfl out
    refine .ok rfl rfl ?_
    rw [hstdout]
    exact dropEmptyLines_filled out
  | error msg => exact .error rfl rfl ⟨firstLine msg, newline_not_mem_firstLine msg, rfl⟩

/-! ### The log -/

/-- The runs among the steps, with their moments and durations. -/
def runsOf (steps : List Step) : List (Nat × Int64) :=
  steps.filterMap fun
    | .init _ => none
    | .run time elapsedMs => some (time, elapsedMs)

/-- The entry of a run of a workflow. -/
def entryOf (lib : Engine) (w : CoreWorkflowCode) (run : Nat × Int64) : WorkflowResult :=
  w.resultOf run.2 (w.answer world lib run.1).result

/-- What a run of steps appended, told by the engine that is loaded at its end. -/
def logOf (cell : Option Engine) (w : CoreWorkflowCode) (steps : List Step) :
    List WorkflowResult :=
  cell.toList.flatMap fun lib => (runsOf steps).map (entryOf world lib w)

structure Logged (p : Process) (steps : List Step) (q : Process) : Prop where
  keeps : ∀ lib, p.cell = some lib → q.cell = some lib
  loaded : q.cell = none → runsOf steps = []
  log : q.workflow = appendResults p.workflow (logOf world q.cell p.workflow steps)

theorem logged_nil (p : Process) : Logged world p [] p where
  keeps _ h := h
  loaded _ := rfl
  log := by cases h : p.cell <;> simp [logOf, runsOf, appendResults]

/-- A step in front: a load leaves the log alone, a run puts its entry first. -/
theorem logged_cons {p t u : Process} {s : Step} {steps : List Step}
    (hs : step world p s = .ok t) (h : Logged world t steps u) : Logged world p (s :: steps) u := by
  cases s with
  | init load =>
    obtain rfl := Except.ok.inj hs
    refine ⟨fun lib hlib => h.keeps lib ?_, h.loaded, h.log⟩
    simp [initJsEngine, hlib]
  | run time elapsedMs =>
    obtain ⟨lib, hlib⟩ := Option.isSome_iff_exists.mp ((step_run_ok_iff world p _ _).mp ⟨t, hs⟩)
    rw [step, hlib, CoreWorkflowCode.run_some] at hs
    obtain rfl := Except.ok.inj hs
    have hcell : u.cell = some lib := h.keeps lib rfl
    refine ⟨fun lib' hlib' => ?_, fun hnone => ?_, ?_⟩
    · rw [hcell, ← hlib']
      exact hlib.symm
    · rw [hcell] at hnone
      cases hnone
    · let e := entryOf world lib p.workflow (time, elapsedMs)
      have hrest : logOf world (some lib) (appendResults p.workflow [e]) steps =
          logOf world (some lib) p.workflow steps := rfl
      calc u.workflow
        _ = appendResults (appendResults p.workflow [e])
            (logOf world (some lib) (appendResults p.workflow [e]) steps) := hcell ▸ h.log
        _ = appendResults p.workflow ([e] ++ logOf world (some lib) p.workflow steps) := by
          rw [hrest]
          simp [appendResults]
        _ = appendResults p.workflow (logOf world u.cell p.workflow (.run time elapsedMs :: steps)) := by
          rw [hcell]
          simp [logOf, runsOf, e]

/-- After any loads and runs that return, the workflow is what it was with one entry more for
each run, in order: the entry of the answer of the one engine of the process to the workflow as
it was. Each entry is consistent, and without an engine there was no run. -/
theorem results_are_log (p q : Process) (steps : List Step)
    (h : exec (step world) p steps = .ok q) :
    ∃ rs, q.workflow = appendResults p.workflow rs ∧
      (∀ lib, q.cell = some lib → rs = (runsOf steps).map (entryOf world lib p.workflow)) ∧
      (q.cell = none → rs = [] ∧ runsOf steps = []) ∧ ∀ r ∈ rs, Consistent r := by
  have hlog : Logged world p steps q :=
    exec_rel (R := Logged world) (logged_nil world) (fun _ _ _ _ _ hs => logged_cons world hs) h
  refine ⟨logOf world q.cell p.workflow steps, hlog.log, fun lib hlib => ?_, fun hnone => ?_,
    fun r hr => ?_⟩
  · simp [logOf, hlib]
  · exact ⟨by simp [logOf, hnone], hlog.loaded hnone⟩
  · obtain ⟨lib, _, hr⟩ := List.mem_flatMap.mp hr
    obtain ⟨run, _, rfl⟩ := List.mem_map.mp hr
    exact consistent_resultOf p.workflow run.2 _

/-- An engine that answers with the moment it is asked at: with an output first, then not. -/
def clockEngine : Engine :=
  ⟨fun time _ _ _ => Traced.lift (if time = 0 then .ok "a\n\nb" else .error "late\nat 1")⟩

def clockSteps : List Step := [.init (.error "no such file"), .init (.ok clockEngine), .run 0 5, .run 1 7]

theorem results_are_log_clock :
    ∃ q rs, exec (step sampleWorld) ⟨none, CoreWorkflowCode.new "w" "" [] 1 [] []⟩ clockSteps = .ok q ∧
      q.workflow = appendResults (CoreWorkflowCode.new "w" "" [] 1 [] []) rs ∧
      rs = [(0, 5), (1, 7)].map
        (entryOf sampleWorld clockEngine (CoreWorkflowCode.new "w" "" [] 1 [] [])) ∧
      ∀ r ∈ rs, Consistent r := by
  obtain ⟨rs, hq, hlog, _, hconsistent⟩ := results_are_log sampleWorld
    ⟨none, CoreWorkflowCode.new "w" "" [] 1 [] []⟩ _ clockSteps rfl
  exact ⟨_, rs, rfl, hq, hlog clockEngine rfl, hconsistent⟩

end Sapphillon.ResultHistory
