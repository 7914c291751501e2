import Sapphillon.StepRun
import Sapphillon.Workflow

/-! Sequences of runs of one workflow in one process, with the loading of the engine among
them. -/
namespace Sapphillon.WorkflowRuns
open StepRun Proto Plugin Permission Sapphillon.Runtime Workflow

structure Process where
  cell : Option Engine
  workflow : CoreWorkflowCode

inductive Step where
  | init (load : Except String Engine)
  | run (time : Nat) (elapsedMs : Int64)

variable (world : World)

def step (p : Process) : Step → Except Panic Process
  | .init load => .ok { p with cell := (initJsEngine p.cell load).1 }
  | .run time elapsedMs => do
    let workflow ← p.workflow.run world p.cell time elapsedMs
    return { p with workflow := workflow }

def Step.isRun : Step → Bool
  | .init _ => false
  | .run _ _ => true

def runCount (steps : List Step) : Nat := steps.countP Step.isRun

/-- The workflow with entries appended and nothing else changed. -/
def appendResults (w : CoreWorkflowCode) (rs : List WorkflowResult) : CoreWorkflowCode :=
  { w with result := w.result ++ rs }

/-- All steps return, and between any two points the results grow by one entry for each run
while everything before stays. -/
def AppendOnly (p : Process) (steps : List Step) : Prop :=
  ∀ before between, before ++ between <+: steps →
    ∃ q r, exec (step world) p before = .ok q ∧ exec (step world) p (before ++ between) = .ok r ∧
      ∃ rs, rs.length = runCount between ∧ r.workflow = appendResults q.workflow rs

/-- No run comes before the engine is loaded. -/
def LoadedBeforeRuns (cell : Option Engine) (steps : List Step) : Prop :=
  ∀ before time elapsedMs, before ++ [.run time elapsedMs] <+: steps →
    cell.isSome ∨ ∃ lib, .init (.ok lib) ∈ before

/-- One call returns with one entry more exactly when the engine is loaded. -/
theorem run_appends_iff (cell : Option Engine) (time : Nat) (elapsedMs : Int64)
    (w : CoreWorkflowCode) :
    (∃ r, w.run world cell time elapsedMs = .ok (appendResults w [r])) ↔ cell.isSome := by
  cases cell with
  | none => simp [CoreWorkflowCode.run_none]
  | some lib =>
    exact iff_of_true ⟨_, CoreWorkflowCode.run_some world lib time elapsedMs w⟩ rfl

theorem step_run_ok_iff (p : Process) (time : Nat) (elapsedMs : Int64) :
    (∃ q, step world p (.run time elapsedMs) = .ok q) ↔ p.cell.isSome := by
  cases hc : p.cell with
  | none => simp [step, hc, CoreWorkflowCode.run_none, bind, Except.bind]
  | some lib =>
    simp [step, hc, CoreWorkflowCode.run_some, bind, Except.bind, pure, Except.pure]

/-- A step that returns appends one entry if it is a run and none otherwise. -/
theorem step_appends {p q : Process} {s : Step} (h : step world p s = .ok q) :
    ∃ rs, rs.length = runCount [s] ∧ q.workflow = appendResults p.workflow rs := by
  cases s with
  | init load =>
    obtain rfl := Except.ok.inj h
    exact ⟨[], rfl, by simp [appendResults]⟩
  | run time elapsedMs =>
    obtain ⟨lib, hlib⟩ := Option.isSome_iff_exists.mp ((step_run_ok_iff world p _ _).mp ⟨q, h⟩)
    rw [step, hlib, CoreWorkflowCode.run_some] at h
    obtain rfl := Except.ok.inj h
    exact ⟨[_], rfl, rfl⟩

theorem exec_appends {p q : Process} {steps : List Step} (h : exec (step world) p steps = .ok q) :
    ∃ rs, rs.length = runCount steps ∧ q.workflow = appendResults p.workflow rs := by
  refine exec_rel (R := fun p steps q => ∃ rs, rs.length = runCount steps ∧
    q.workflow = appendResults p.workflow rs) (fun p => ⟨[], rfl, by simp [appendResults]⟩) ?_ h
  intro p s t steps q hs hrest
  obtain ⟨rs, hrs, hq⟩ := hrest
  obtain ⟨rs', hrs', ht⟩ := step_appends world hs
  refine ⟨rs' ++ rs, ?_, ?_⟩
  · simp only [runCount, List.countP_cons, List.countP_nil, List.length_append] at hrs hrs' ⊢
    omega
  · rw [hq, ht]
    simp [appendResults]

/-- The cell is loaded behind a run of steps when it was before or one of them loaded it. -/
theorem exec_cell {p q : Process} {steps : List Step} (h : exec (step world) p steps = .ok q) :
    q.cell.isSome ↔ p.cell.isSome ∨ ∃ lib, .init (.ok lib) ∈ steps := by
  refine exec_rel (R := fun p steps q => (q.cell.isSome : Prop) ↔
    p.cell.isSome ∨ ∃ lib, .init (.ok lib) ∈ steps) (fun p => by simp) ?_ h
  intro p s t steps q hs ih
  rw [ih]
  cases s with
  | init load =>
    obtain rfl := Except.ok.inj hs
    cases hc : p.cell <;> cases load <;> simp [initJsEngine]
  | run time elapsedMs =>
    obtain ⟨lib, hlib⟩ := Option.isSome_iff_exists.mp ((step_run_ok_iff world p _ _).mp ⟨t, hs⟩)
    rw [step, hlib, CoreWorkflowCode.run_some] at hs
    obtain rfl := Except.ok.inj hs
    simp [hlib]

/-- A run appends exactly one result and never panics exactly when the engine is loaded,
and a sequence of runs and loads is append-only exactly when no run comes before a load. -/
theorem run_never_panics_iff :
    (∀ (cell : Option Engine) (time : Nat) (elapsedMs : Int64) (w : CoreWorkflowCode),
      (∃ r, w.run world cell time elapsedMs = .ok (appendResults w [r])) ↔ cell.isSome) ∧
    ∀ (p : Process) (steps : List Step),
      AppendOnly world p steps ↔ LoadedBeforeRuns p.cell steps := by
  refine ⟨run_appends_iff world, fun p steps => ?_⟩
  let Enabled (before : List Step) : Step → Prop
    | .init _ => True
    | .run _ _ => p.cell.isSome ∨ ∃ lib, .init (.ok lib) ∈ before
  have henabled (before : List Step) (t : Process) (s : Step)
      (h : exec (step world) p before = .ok t) : (∃ u, step world t s = .ok u) ↔ Enabled before s := by
    cases s with
    | init load => exact iff_of_true ⟨_, rfl⟩ trivial
    | run time elapsedMs => rw [step_run_ok_iff, exec_cell world h]
  have hloaded : LoadedBeforeRuns p.cell steps ↔
      ∀ before s, before ++ [s] <+: steps → Enabled before s := by
    constructor
    · intro h before s hpre
      cases s with
      | init load => trivial
      | run time elapsedMs => exact h before time elapsedMs hpre
    · exact fun h before time elapsedMs hpre => h before (.run time elapsedMs) hpre
  rw [hloaded, ← exec_ok_iff henabled]
  constructor
  · intro h
    obtain ⟨_, r, _, hr, _⟩ := h [] steps (List.prefix_refl _)
    exact ⟨r, hr⟩
  · intro hok before between hpre
    obtain ⟨u, hu⟩ := hok
    obtain ⟨rest, hrest⟩ := hpre
    rw [← hrest] at hu
    obtain ⟨r, hr, _⟩ := exec_append_eq_ok.mp hu
    obtain ⟨q, hq, hqr⟩ := exec_append_eq_ok.mp hr
    exact ⟨q, r, hq, hr, exec_appends world hqr⟩

/-- A fresh workflow run before the engine is loaded. -/
theorem run_panics_unloaded :
    (CoreWorkflowCode.new "w" "" [] 1 [] []).run
      ⟨⟨fun _ _ => .ok (), fun _ _ _ _ => .ok ""⟩, ⟨fun _ => .error "", fun _ => .error "",
        fun _ => .error "", fun _ => .error "", fun _ => .error "", fun _ => .error "",
        fun _ => .error ""⟩, fun _ => none⟩ none 0 0 = .error .engineNotInitialised := rfl

end Sapphillon.WorkflowRuns
