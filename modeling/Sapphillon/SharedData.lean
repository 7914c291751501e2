import Mathlib.Logic.Function.Basic
import Sapphillon.Runtime
import Sapphillon.StepRun

/-! Any number of `run_script` calls on one shared `OpStateWorkflowData`. A call takes the
lock twice, to read the packages and grants and to ingest what the engine answered, and the
calls interleave at these points in any order. -/
namespace Sapphillon.SharedData
open JsInterface Permission Plugin StepRun Sapphillon.Runtime

/-- Where a call stands; between its two locked parts it holds what it read. -/
inductive Phase where
  | fresh
  | running (read : List CorePluginExternalPackage × List PluginFunctionPermissions)
  | finished

variable {ι : Type}

structure State (ι : Type) where
  data : OpStateWorkflowData
  phase : ι → Phase

/-- The locked part a call takes next; the engine's answer is free. -/
inductive Action (ι : Type) where
  | snapshot (call : ι)
  | ingest (call : ι) (outcome : Except String String)

def initial (data : OpStateWorkflowData) : State ι := ⟨data, fun _ => .fresh⟩

/-- The data behind the second part: a failed call does not take the lock again. -/
def conclude (data : OpStateWorkflowData) : Except String String → OpStateWorkflowData
  | .ok stdout => ingest data stdout
  | .error _ => data

section Steps
variable [DecidableEq ι]

/-- Each call takes its two parts once, the reading part first. -/
def step (s : State ι) : Action ι → Except Unit (State ι)
  | .snapshot call =>
    match s.phase call with
    | .fresh => .ok { s with phase := Function.update s.phase call (.running (snapshot s.data)) }
    | .running _ | .finished => .error ()
  | .ingest call outcome =>
    match s.phase call with
    | .running _ => .ok ⟨conclude s.data outcome, Function.update s.phase call .finished⟩
    | .fresh | .finished => .error ()

theorem step_snapshot {s t : State ι} {call : ι} (h : step s (.snapshot call) = .ok t) :
    s.phase call = .fresh ∧
      t = { s with phase := Function.update s.phase call (.running (snapshot s.data)) } := by
  cases hp : s.phase call with
  | fresh => exact ⟨rfl, by simpa [step, hp] using h.symm⟩
  | running read => simp [step, hp] at h
  | finished => simp [step, hp] at h

theorem step_ingest {s t : State ι} {call : ι} {outcome : Except String String}
    (h : step s (.ingest call outcome) = .ok t) :
    (∃ read, s.phase call = .running read) ∧
      t = ⟨conclude s.data outcome, Function.update s.phase call .finished⟩ := by
  cases hp : s.phase call with
  | fresh => simp [step, hp] at h
  | running read => exact ⟨⟨read, rfl⟩, by simpa [step, hp] using h.symm⟩
  | finished => simp [step, hp] at h

end Steps

/-! ### What a history ingested -/

/-- The calls that took their second part. -/
def concluded (actions : List (Action ι)) : List ι :=
  actions.filterMap fun
    | .ingest call _ => some call
    | .snapshot _ => none

/-- The calls the engine answered with an output, with it, in the order of ingestion. -/
def ingested (actions : List (Action ι)) : List (ι × String) :=
  actions.filterMap fun
    | .ingest call (.ok stdout) => some (call, stdout)
    | .ingest _ (.error _) => none
    | .snapshot _ => none

theorem ingested_sublist (actions : List (Action ι)) :
    ((ingested actions).map Prod.fst).Sublist (concluded actions) := by
  induction actions with
  | nil => exact List.Sublist.refl _
  | cons a actions ih =>
    cases a with
    | snapshot call => exact ih
    | ingest call outcome =>
      cases outcome with
      | ok stdout => exact ih.cons_cons call
      | error msg => exact ih.cons call

/-- A call that concludes once, with an error, adds nothing. -/
theorem failed_not_ingested {actions : List (Action ι)} (h : (concluded actions).Nodup)
    {call : ι} {msg : String} (hm : .ingest call (.error msg) ∈ actions) :
    call ∉ (ingested actions).map Prod.fst := by
  induction actions with
  | nil => cases hm
  | cons a actions ih =>
    cases a with
    | snapshot other => exact ih h ((List.mem_cons.mp hm).resolve_left (by simp))
    | ingest other outcome =>
      obtain ⟨hother, hrest⟩ := List.nodup_cons.mp (h : (other :: concluded actions).Nodup)
      have hsub := (ingested_sublist actions).subset
      cases List.mem_cons.mp hm with
      | inl he =>
        obtain ⟨rfl, rfl⟩ := Action.ingest.inj he
        exact fun hc => hother (hsub hc)
      | inr hlater =>
        have hne : call ≠ other := by
          intro he
          exact hother (he ▸ List.mem_filterMap.mpr ⟨_, hlater, rfl⟩)
        have hnot := ih hrest hlater
        cases outcome with
        | ok stdout =>
          intro hc
          cases List.mem_cons.mp hc with
          | inl he => exact hne he
          | inr hc => exact hnot hc
        | error _ => exact hnot

/-! ### The invariant -/

/-- The buffer holds the lines of the outputs ingested so far and nothing else changed;
a call is finished when it concluded, which it does once. -/
structure Inv (data : OpStateWorkflowData) (actions : List (Action ι)) (s : State ι) : Prop where
  data_eq : s.data = { data with stdoutBuf := (ingested actions).flatMap fun e => entries e.2 }
  finished_iff : ∀ call, s.phase call = .finished ↔ call ∈ concluded actions
  concluded_once : (concluded actions).Nodup
  read_eq : ∀ call read, s.phase call = .running read → read = snapshot data

theorem inv_initial {data : OpStateWorkflowData} (h : data.stdoutBuf = []) :
    Inv data [] (initial data : State ι) where
  data_eq := by
    cases data
    cases h
    rfl
  finished_iff call := by simp [initial, concluded]
  concluded_once := List.nodup_nil
  read_eq call read hr := by cases hr

theorem conclude_eq (data : OpStateWorkflowData) (actions : List (Action ι)) (call : ι)
    (outcome : Except String String) :
    conclude { data with stdoutBuf := (ingested actions).flatMap fun e => entries e.2 } outcome =
      { data with stdoutBuf :=
          (ingested (actions ++ [.ingest call outcome])).flatMap fun e => entries e.2 } := by
  cases outcome with
  | ok stdout => simp [conclude, ingest_eq, ingested]
  | error msg => simp [conclude, ingested]

section Runs
variable [DecidableEq ι] {data : OpStateWorkflowData} {actions : List (Action ι)} {s t : State ι}

theorem inv_snapshot (hinv : Inv data actions s) {call : ι}
    (h : step s (.snapshot call) = .ok t) : Inv data (actions ++ [.snapshot call]) t := by
  obtain ⟨hfresh, rfl⟩ := step_snapshot h
  have hing : ingested (actions ++ [.snapshot call]) = ingested actions := by simp [ingested]
  have hcon : concluded (actions ++ [.snapshot call]) = concluded actions := by simp [concluded]
  constructor
  case data_eq => rw [hing, hinv.data_eq]
  case finished_iff =>
    intro c
    rw [hcon, ← hinv.finished_iff]
    by_cases hc : c = call
    · simp [hc, hfresh]
    · simp [hc]
  case concluded_once => exact hcon ▸ hinv.concluded_once
  case read_eq =>
    intro c read hr
    by_cases hc : c = call
    · have hread : snapshot s.data = read := by simpa [hc] using hr
      rw [← hread, hinv.data_eq]
      rfl
    · exact hinv.read_eq c read (by simpa [hc] using hr)

theorem inv_ingest (hinv : Inv data actions s) {call : ι} {outcome : Except String String}
    (h : step s (.ingest call outcome) = .ok t) :
    Inv data (actions ++ [.ingest call outcome]) t := by
  obtain ⟨⟨read, hrunning⟩, rfl⟩ := step_ingest h
  have hcon : concluded (actions ++ [.ingest call outcome]) = concluded actions ++ [call] := by
    simp [concluded]
  have hnew : call ∉ concluded actions := by
    rw [← hinv.finished_iff, hrunning]
    simp
  constructor
  case data_eq => exact hinv.data_eq ▸ conclude_eq data actions call outcome
  case finished_iff =>
    intro c
    rw [hcon, List.mem_append, List.mem_singleton, ← hinv.finished_iff]
    by_cases hc : c = call
    · simp [hc]
    · simp [hc]
  case concluded_once =>
    rw [hcon, List.nodup_append]
    refine ⟨hinv.concluded_once, List.nodup_singleton call, fun c hc d hd => ?_⟩
    rw [List.mem_singleton.mp hd]
    exact fun he => hnew (he ▸ hc)
  case read_eq =>
    intro c r hr
    by_cases hc : c = call
    · simp [hc] at hr
    · exact hinv.read_eq c r (by simpa [hc] using hr)

theorem exec_inv (h0 : data.stdoutBuf = []) (h : exec step (initial data) actions = .ok s) :
    Inv data actions s := by
  refine exec_history (I := Inv data) (inv_initial h0) ?_ h
  intro l a t u hinv hstep
  cases a with
  | snapshot call => exact inv_snapshot hinv hstep
  | ingest call outcome => exact inv_ingest hinv hstep

/-- Every call works on the packages and grants of the start, whatever the others did. -/
theorem running_reads_start (h0 : data.stdoutBuf = [])
    (h : exec step (initial data) actions = .ok s) {call : ι}
    {read : List CorePluginExternalPackage × List PluginFunctionPermissions}
    (hr : s.phase call = .running read) : read = snapshot data :=
  (exec_inv h0 h).read_eq call read hr

/-- In every reachable state the buffer is the concatenation, in the order of ingestion, of
the lines of the outputs, one output for each call that succeeded and none for one that
failed; nothing else has changed, and the joined text splits into the stored entries. -/
theorem shared_data_exact (data : OpStateWorkflowData) (h0 : data.stdoutBuf = [])
    (actions : List (Action ι)) (s : State ι) (h : exec step (initial data) actions = .ok s) :
    s.data = { data with stdoutBuf := (ingested actions).flatMap fun e => entries e.2 } ∧
    ((ingested actions).map Prod.fst).Nodup ∧
    (∀ call msg, .ingest call (.error msg) ∈ actions →
      call ∉ (ingested actions).map Prod.fst) ∧
    entries s.data.stdoutToString = s.data.stdoutBuf := by
  have hinv := exec_inv h0 h
  refine ⟨hinv.data_eq, hinv.concluded_once.sublist (ingested_sublist actions),
    fun call msg hm => failed_not_ingested hinv.concluded_once hm, ?_⟩
  have hbuf : s.data.stdoutBuf = ((ingested actions).map Prod.snd).flatMap entries := by
    rw [hinv.data_eq, List.flatMap_map]
  exact entries_stdoutToString hbuf

end Runs

/-- Two calls that read before either ingests, and one that fails. -/
theorem shared_data_two_calls :
    ∃ s : State Nat, exec step (initial (OpStateWorkflowData.new "w" true none none []))
        [.snapshot 0, .snapshot 1, .ingest 1 (.ok "b\n\n"), .snapshot 2,
          .ingest 2 (.error "x"), .ingest 0 (.ok "\na\nc")] = .ok s ∧
      s.data.stdoutBuf = [.stdout "b", .stdout "a", .stdout "c"] ∧
      entries s.data.stdoutToString = s.data.stdoutBuf := by
  refine ⟨_, rfl, by decide, ?_⟩
  exact (shared_data_exact (OpStateWorkflowData.new "w" true none none []) rfl
    [.snapshot 0, .snapshot 1, .ingest 1 (.ok "b\n\n"), .snapshot 2, .ingest 2 (.error "x"),
      .ingest 0 (.ok "\na\nc")] _ rfl).2.2.2

/-! ### One call alone -/

variable (world : World)

/-- `run_script` is its two locked parts with the engine between them. -/
theorem runScript_eq_steps [DecidableEq ι] (lib : Engine) (time : Nat) (script : String)
    (plugins : List PluginFunction) (data : OpStateWorkflowData)
    (preScript : Option (List String)) (call : ι) :
    let answer := lib.runScript time script (plugins.foldl routePlugin (preScript.getD [], [])).1
      ⟨buildCtx plugins data, dispatchCall world⟩
    ∃ s : State ι, exec step (initial data) [.snapshot call, .ingest call answer.result] = .ok s ∧
      runScript world (some lib) time script plugins (some (Mutex.new data)) preScript =
        .ok ⟨answer.events, match answer.result with
          | .ok _ => .ok (Mutex.new s.data)
          | .error msg => .error (scriptError msg)⟩ := by
  intro answer
  have hfirst : step (initial data : State ι) (.snapshot call) = .ok ⟨data,
      Function.update (fun _ => .fresh) call (.running (snapshot data))⟩ := rfl
  have hsecond : step (⟨data, Function.update (fun _ => .fresh) call
        (.running (snapshot data))⟩ : State ι) (.ingest call answer.result) =
      .ok ⟨conclude data answer.result, Function.update (Function.update (fun _ => .fresh) call
        (.running (snapshot data))) call .finished⟩ := by
    simp [step]
  refine ⟨_, exec_cons_eq_ok.mpr ⟨_, hfirst, exec_cons_eq_ok.mpr ⟨_, hsecond, rfl⟩⟩, ?_⟩
  rw [runScript_eq]
  cases h : answer.result with
  | ok stdout => simp [answer, h, finish, conclude]
  | error msg => simp [answer, h, finish]

end Sapphillon.SharedData
