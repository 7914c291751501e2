import Sapphillon.RunTrace

/-! A process without the boundary between the runtime and the engine library: the engine is a
plugin instead of exported functions, and `dispatch_impl` stands where the engine calls through
the two opaque pointers. The process with the boundary does the same. -/
namespace Sapphillon.InlinedProcess
open StepRun JsInterface JsEngine RunTrace Sapphillon.Runtime Dispatch Workflow WorkflowRuns

/-- The engine of a process as the plugin inside the exported module. -/
structure Process where
  cell : Option (Nat → EnginePlugin)
  workflow : CoreWorkflowCode

inductive Step where
  | init (load : Except String (Nat → EnginePlugin))
  | run (time : Nat) (elapsedMs : Int64)

variable (world : World)

/-- A run does its own dispatching; a failed script is a result like any other. -/
def step (p : Process) : Step → Traced DispatchEvent Panic Process
  | .init load => return { p with cell := p.cell.or load.toOption }
  | .run time elapsedMs =>
    match p.cell with
    | none => Traced.lift (.error .engineNotInitialised)
    | some plugin => do
      let answer ← (runScriptInlined world (plugin time) time p.workflow.code p.workflow.preScripts
        p.workflow.dispatchCtx).attempt
      return { p with workflow := p.workflow.pushResult (p.workflow.resultOf elapsedMs answer) }

def run (p : Process) : List Step → Traced DispatchEvent Panic Process
  | [] => return p
  | s :: steps => do
    let q ← step world p s
    run q steps

/-- The process with the plugin behind the exported functions. -/
def Process.exported (p : Process) : WorkflowRuns.Process :=
  ⟨p.cell.map (ffiRunScript world.serde), p.workflow⟩

def Step.exported : Step → WorkflowRuns.Step
  | .init load => .init (load.map (ffiRunScript world.serde))
  | .run time elapsedMs => .run time elapsedMs

variable {world}

/-- One step leaves the same process, and its own dispatching is what the dispatcher does behind
the pointer. -/
theorem step_exported (p : Process) (s : Step) :
    (step world p s).events = stepTrace world (p.exported world) (s.exported world) ∧
      (step world p s).result.map (Process.exported world) =
        WorkflowRuns.step world (p.exported world) (s.exported world) := by
  cases s with
  | init load =>
    refine ⟨rfl, ?_⟩
    cases hcell : p.cell <;> cases load <;>
      simp [step, WorkflowRuns.step, Step.exported, Process.exported, initJsEngine, hcell,
        Except.map, Except.toOption]
  | run time elapsedMs =>
    cases hcell : p.cell with
    | none =>
      have hrun : WorkflowRuns.step world (p.exported world) (.run time elapsedMs) =
          .error .engineNotInitialised := by
        simp [WorkflowRuns.step, Process.exported, hcell, CoreWorkflowCode.run_none, bind,
          Except.bind]
      refine ⟨?_, ?_⟩
      · simp [step, stepTrace, Step.exported, Process.exported, hcell]
      · simp [step, Step.exported, hcell, hrun, Except.map]
    | some plugin =>
      let lib : Engine := ffiRunScript world.serde plugin
      have hinlined : runScriptInlined world (plugin time) time p.workflow.code
          p.workflow.preScripts p.workflow.dispatchCtx =
            ⟨dispatched world time (p.workflow.answer world lib time).events,
              (p.workflow.answer world lib time).result⟩ :=
        runScriptInlined_eq world (plugin time) time _ _ _
      have hrun : WorkflowRuns.step world (p.exported world) (.run time elapsedMs) =
          .ok ⟨some lib, p.workflow.pushResult
            (p.workflow.resultOf elapsedMs (p.workflow.answer world lib time).result)⟩ := by
        simp [WorkflowRuns.step, Process.exported, hcell, lib, CoreWorkflowCode.run_some, bind,
          Except.bind, pure, Except.pure]
      have hattempt : ((runScriptInlined world (plugin time) time p.workflow.code
          p.workflow.preScripts p.workflow.dispatchCtx).attempt :
            Traced DispatchEvent Panic (Except String String)) =
          ⟨dispatched world time (p.workflow.answer world lib time).events,
            .ok (p.workflow.answer world lib time).result⟩ := by
        rw [hinlined]
        rfl
      simp only [step, hcell, hattempt]
      rw [Traced.bind_ok _ rfl]
      refine ⟨?_, ?_⟩
      · simp [stepTrace, Step.exported, Process.exported, hcell, lib]
      · rw [Step.exported, hrun]
        simp [Except.map, Process.exported, lib]

end Sapphillon.InlinedProcess
