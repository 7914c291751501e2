import Mathlib.Logic.Function.Basic
import Sapphillon.Runtime
import Sapphillon.StepRun

/-! Any number of threads in `init_js_engine`. A call asks the cell, loads the library and sets
the cell, and the calls interleave at these points in any order; put in the right order they
could have been made one at a time. -/
namespace Sapphillon.EngineCell
open StepRun Sapphillon.Runtime

/-- Where a call stands. -/
inductive Phase where
  | fresh
  | loading
  | loaded (lib : Engine)
  | returned (answer : Except String Unit)

variable {ι : Type}

structure State (ι : Type) where
  cell : Option Engine
  phase : ι → Phase

/-- The next point of a call: `JS_ENGINE.get()` with what it found, `load_from_file`, or
`JS_ENGINE.set(lib)`. -/
inductive Action (ι : Type) where
  | get (call : ι) (present : Bool)
  | load (call : ι)
  | set (call : ι)
deriving DecidableEq

def initial : State ι := ⟨none, fun _ => .fresh⟩

/-- What a call returned, if it did. -/
def State.answer? (s : State ι) (call : ι) : Option (Except String Unit) :=
  match s.phase call with
  | .returned answer => some answer
  | _ => none

/-- The phase behind the loading of the library. -/
def afterLoad : Except String Engine → Phase
  | .ok lib => .loaded lib
  | .error e => .returned (.error e)

section Steps
variable [DecidableEq ι] (load : ι → Except String Engine)

/-- One point of a call, where `load` is what its path gives. The set of a full cell is
ignored. -/
def step (s : State ι) : Action ι → Except Unit (State ι)
  | .get call present =>
    match s.phase call with
    | .fresh =>
      if s.cell.isSome = present then
        .ok { s with
          phase := Function.update s.phase call
            (if present then .returned (.ok ()) else .loading) }
      else .error ()
    | _ => .error ()
  | .load call =>
    match s.phase call with
    | .loading => .ok { s with phase := Function.update s.phase call (afterLoad (load call)) }
    | _ => .error ()
  | .set call =>
    match s.phase call with
    | .loaded lib =>
      .ok ⟨some (s.cell.getD lib), Function.update s.phase call (.returned (.ok ()))⟩
    | _ => .error ()

variable {load} {s t : State ι} {call : ι}

theorem step_get {present : Bool} (h : step load s (.get call present) = .ok t) :
    s.phase call = .fresh ∧ s.cell.isSome = present ∧
      t = { s with
        phase := Function.update s.phase call
          (if present then .returned (.ok ()) else .loading) } := by
  cases hp : s.phase call with
  | fresh =>
    by_cases hcell : s.cell.isSome = present
    · exact ⟨rfl, hcell, by simpa [step, hp, hcell] using h.symm⟩
    · simp [step, hp, hcell] at h
  | loading => simp [step, hp] at h
  | loaded lib => simp [step, hp] at h
  | returned answer => simp [step, hp] at h

theorem step_load (h : step load s (.load call) = .ok t) :
    s.phase call = .loading ∧
      t = { s with phase := Function.update s.phase call (afterLoad (load call)) } := by
  cases hp : s.phase call with
  | fresh => simp [step, hp] at h
  | loading => exact ⟨rfl, by simpa [step, hp] using h.symm⟩
  | loaded lib => simp [step, hp] at h
  | returned answer => simp [step, hp] at h

theorem step_set (h : step load s (.set call) = .ok t) :
    ∃ lib, s.phase call = .loaded lib ∧
      t = ⟨some (s.cell.getD lib), Function.update s.phase call (.returned (.ok ()))⟩ := by
  cases hp : s.phase call with
  | fresh => simp [step, hp] at h
  | loading => simp [step, hp] at h
  | loaded lib => exact ⟨lib, rfl, by simpa [step, hp] using h.symm⟩
  | returned answer => simp [step, hp] at h

end Steps

/-! ### Calls one at a time -/

/-- Calls of `init_js_engine` one after the other. -/
def runInits (cell : Option Engine) :
    List (Except String Engine) → Option Engine × List (Except String Unit)
  | [] => (cell, [])
  | load :: loads =>
    let first := initJsEngine cell load
    let rest := runInits first.1 loads
    (rest.1, first.2 :: rest.2)

theorem runInits_append (cell : Option Engine) (loads loads' : List (Except String Engine)) :
    runInits cell (loads ++ loads') =
      ((runInits (runInits cell loads).1 loads').1,
        (runInits cell loads).2 ++ (runInits (runInits cell loads).1 loads').2) := by
  induction loads generalizing cell with
  | nil => rfl
  | cons load loads ih => simp [runInits, ih]

/-- The calls that returned an error, in the order of their returns. -/
def failed (load : ι → Except String Engine) (actions : List (Action ι)) : List ι :=
  actions.filterMap fun
    | .load call =>
      match load call with
      | .error _ => some call
      | .ok _ => none
    | _ => none

/-- The calls that returned without an error, in the order of their returns. -/
def succeeded (actions : List (Action ι)) : List ι :=
  actions.filterMap fun
    | .get call true => some call
    | .set call => some call
    | _ => none

/-- The failed calls found an empty cell, so they come first. -/
def order (load : ι → Except String Engine) (actions : List (Action ι)) : List ι :=
  failed load actions ++ succeeded actions

theorem order_append (load : ι → Except String Engine) (before after : List (Action ι)) :
    order load (before ++ after) =
      failed load before ++ (failed load after ++ (succeeded before ++ succeeded after)) := by
  simp [order, failed, succeeded]

/-! ### The invariant -/

/-- A phase agrees with what the path of its call gives. -/
def Phase.Agrees (load : Except String Engine) : Phase → Prop
  | .loaded lib => load = .ok lib
  | .returned (.error e) => load = .error e
  | _ => True

def Phase.failing : Phase → Bool
  | .returned (.error _) => true
  | _ => false

def Phase.succeeding : Phase → Bool
  | .returned (.ok _) => true
  | _ => false

/-- The calls that succeeded could have been made alone, one at a time, in their order. -/
structure Inv (load : ι → Except String Engine) (actions : List (Action ι)) (s : State ι) :
    Prop where
  failed_iff : ∀ c, c ∈ failed load actions ↔ (s.phase c).failing = true
  succeeded_iff : ∀ c, c ∈ succeeded actions ↔ (s.phase c).succeeding = true
  failed_once : (failed load actions).Nodup
  succeeded_once : (succeeded actions).Nodup
  agrees : ∀ c, (s.phase c).Agrees (load c)
  full : ∀ c, (s.phase c).succeeding = true → s.cell.isSome = true
  replay : runInits none ((succeeded actions).map load) =
    (s.cell, (succeeded actions).map fun _ => .ok ())

theorem inv_initial {load : ι → Except String Engine} : Inv load [] (initial : State ι) where
  failed_iff c := by simp [failed, initial, Phase.failing]
  succeeded_iff c := by simp [succeeded, initial, Phase.succeeding]
  failed_once := List.nodup_nil
  succeeded_once := List.nodup_nil
  agrees c := trivial
  full c hc := by cases hc
  replay := rfl

theorem nodup_concat {l : List ι} {c : ι} (hl : l.Nodup) (hc : c ∉ l) : (l ++ [c]).Nodup := by
  refine List.nodup_append.mpr ⟨hl, List.nodup_singleton c, fun a ha b hb => ?_⟩
  rw [List.mem_singleton.mp hb]
  exact fun he => hc (he ▸ ha)

section Runs
variable [DecidableEq ι] {load : ι → Except String Engine} {actions : List (Action ι)}
  {s t : State ι} {call : ι}

/-- One call moves on to a phase that puts it into the lists where it belongs. -/
theorem Inv.advance (hinv : Inv load actions s) {a : Action ι} {cell : Option Engine} {p : Phase}
    (hfailing : (s.phase call).failing = false) (hsucceeding : (s.phase call).succeeding = false)
    (hf : failed load (actions ++ [a]) =
      failed load actions ++ if p.failing then [call] else [])
    (hs : succeeded (actions ++ [a]) = succeeded actions ++ if p.succeeding then [call] else [])
    (hagrees : p.Agrees (load call))
    (hfull : s.cell.isSome = true ∨ p.succeeding = true → cell.isSome = true)
    (hreplay : runInits none ((succeeded (actions ++ [a])).map load) =
      (cell, (succeeded (actions ++ [a])).map fun _ => .ok ())) :
    Inv load (actions ++ [a]) ⟨cell, Function.update s.phase call p⟩ := by
  have hnewFailed : call ∉ failed load actions := by simp [hinv.failed_iff, hfailing]
  have hnewSucceeded : call ∉ succeeded actions := by simp [hinv.succeeded_iff, hsucceeding]
  constructor
  case failed_iff =>
    intro c
    by_cases hc : c = call
    · rw [hf, hc]
      cases hp : p.failing <;> simp [hnewFailed, hp]
    · have hold : c ∈ failed load actions ++ (if p.failing then [call] else []) ↔
          c ∈ failed load actions := by
        cases p.failing <;> simp [hc]
      simp [hf, hold, hinv.failed_iff, hc]
  case succeeded_iff =>
    intro c
    by_cases hc : c = call
    · rw [hs, hc]
      cases hp : p.succeeding <;> simp [hnewSucceeded, hp]
    · have hold : c ∈ succeeded actions ++ (if p.succeeding then [call] else []) ↔
          c ∈ succeeded actions := by
        cases p.succeeding <;> simp [hc]
      simp [hs, hold, hinv.succeeded_iff, hc]
  case failed_once =>
    rw [hf]
    cases p.failing with
    | true => exact nodup_concat hinv.failed_once hnewFailed
    | false => simpa using hinv.failed_once
  case succeeded_once =>
    rw [hs]
    cases p.succeeding with
    | true => exact nodup_concat hinv.succeeded_once hnewSucceeded
    | false => simpa using hinv.succeeded_once
  case agrees =>
    intro c
    by_cases hc : c = call
    · simpa [hc] using hagrees
    · simpa [hc] using hinv.agrees c
  case full =>
    intro c hsucc
    by_cases hc : c = call
    · exact hfull (Or.inr (by simpa [hc] using hsucc))
    · exact hfull (Or.inl (hinv.full c (by simpa [hc] using hsucc)))
  case replay => exact hreplay

omit [DecidableEq ι] in
/-- One more call that succeeds, made alone behind the others. -/
theorem Inv.replay_concat (hinv : Inv load actions s) {cell : Option Engine}
    (hcall : initJsEngine s.cell (load call) = (cell, .ok ())) :
    runInits none ((succeeded actions ++ [call]).map load) =
      (cell, (succeeded actions ++ [call]).map fun _ => .ok ()) := by
  rw [List.map_append, runInits_append, hinv.replay]
  simp [runInits, hcall]

theorem inv_get (hinv : Inv load actions s) {present : Bool}
    (h : step load s (.get call present) = .ok t) :
    Inv load (actions ++ [.get call present]) t := by
  obtain ⟨hfresh, hcell, rfl⟩ := step_get h
  cases present with
  | true =>
    obtain ⟨lib, hlib⟩ := Option.isSome_iff_exists.mp hcell
    refine hinv.advance (by simp [hfresh, Phase.failing]) (by simp [hfresh, Phase.succeeding])
      (by simp [failed, Phase.failing]) (by simp [succeeded, Phase.succeeding]) trivial
      (fun _ => hcell) ?_
    have hs : succeeded (actions ++ [.get call true]) = succeeded actions ++ [call] := by
      simp [succeeded]
    rw [hs]
    exact hinv.replay_concat (by rw [hlib]; rfl)
  | false =>
    have hs : succeeded (actions ++ [.get call false]) = succeeded actions := by simp [succeeded]
    refine hinv.advance (by simp [hfresh, Phase.failing]) (by simp [hfresh, Phase.succeeding])
      (by simp [failed, Phase.failing]) (by simp [succeeded, Phase.succeeding]) trivial
      (fun hfull => hfull.resolve_right (by simp [Phase.succeeding])) ?_
    rw [hs]
    exact hinv.replay

theorem inv_load (hinv : Inv load actions s) (h : step load s (.load call) = .ok t) :
    Inv load (actions ++ [.load call]) t := by
  obtain ⟨hloading, rfl⟩ := step_load h
  have hs : succeeded (actions ++ [.load call]) = succeeded actions := by simp [succeeded]
  refine hinv.advance (by simp [hloading, Phase.failing]) (by simp [hloading, Phase.succeeding])
    ?_ ?_ ?_ (fun hfull => hfull.resolve_right ?_) (by rw [hs]; exact hinv.replay)
  all_goals
    cases hl : load call <;>
      simp [failed, succeeded, afterLoad, Phase.failing, Phase.succeeding, Phase.Agrees, hl]

theorem inv_set (hinv : Inv load actions s) (h : step load s (.set call) = .ok t) :
    Inv load (actions ++ [.set call]) t := by
  obtain ⟨lib, hloaded, rfl⟩ := step_set h
  have hlib : load call = .ok lib := by
    have hagrees := hinv.agrees call
    rw [hloaded] at hagrees
    exact hagrees
  have hs : succeeded (actions ++ [.set call]) = succeeded actions ++ [call] := by
    simp [succeeded]
  refine hinv.advance (by simp [hloaded, Phase.failing]) (by simp [hloaded, Phase.succeeding])
    (by simp [failed, Phase.failing]) (by simp [succeeded, Phase.succeeding]) trivial
    (fun _ => rfl) ?_
  rw [hs]
  refine hinv.replay_concat ?_
  rw [hlib]
  cases s.cell <;> rfl

theorem exec_inv (h : exec (step load) initial actions = .ok s) : Inv load actions s := by
  refine exec_history (I := Inv load) inv_initial ?_ h
  intro l a t u hinv hstep
  cases a with
  | get call present => exact inv_get hinv hstep
  | load call => exact inv_load hinv hstep
  | set call => exact inv_set hinv hstep

/-! ### The cell keeps its engine -/

theorem cell_step {lib : Engine} (hcell : s.cell = some lib) {a : Action ι}
    (h : step load s a = .ok t) : t.cell = some lib := by
  cases a with
  | get call present =>
    obtain ⟨_, _, rfl⟩ := step_get h
    exact hcell
  | load call =>
    obtain ⟨_, rfl⟩ := step_load h
    exact hcell
  | set call =>
    obtain ⟨_, _, rfl⟩ := step_set h
    simp [hcell]

theorem cell_keeps {lib : Engine} (hcell : s.cell = some lib)
    (h : exec (step load) s actions = .ok t) : t.cell = some lib :=
  exec_history (I := fun _ u => u.cell = some lib) hcell
    (fun _ _ _ _ hold hstep => cell_step hold hstep) h

/-- A call that begins when the cell is full never loads anything, so it cannot fail. -/
theorem later_succeeds {lib : Engine} (hcell : s.cell = some lib) (hfresh : s.phase call = .fresh)
    (h : exec (step load) s actions = .ok t) :
    (t.phase call = .fresh ∨ t.phase call = .returned (.ok ())) ∧ call ∉ failed load actions := by
  have hall : t.cell = some lib ∧
      (t.phase call = .fresh ∨ t.phase call = .returned (.ok ())) ∧
      call ∉ failed load actions := by
    refine exec_history (I := fun l u => u.cell = some lib ∧
      (u.phase call = .fresh ∨ u.phase call = .returned (.ok ())) ∧ call ∉ failed load l)
      ⟨hcell, Or.inl hfresh, by simp [failed]⟩ ?_ h
    intro l a u v hinv hstep
    obtain ⟨hu, hphase, hnot⟩ := hinv
    refine ⟨cell_step hu hstep, ?_⟩
    cases a with
    | get c present =>
      obtain ⟨_, hpresent, rfl⟩ := step_get hstep
      obtain rfl : true = present := by simpa [hu] using hpresent
      refine ⟨?_, by simpa [failed] using hnot⟩
      by_cases hc : call = c
      · exact Or.inr (by simp [hc])
      · simpa [hc] using hphase
    | load c =>
      obtain ⟨hloading, rfl⟩ := step_load hstep
      have hc : call ≠ c := by
        intro he
        rw [← he] at hloading
        simp [hloading] at hphase
      refine ⟨by simpa [hc] using hphase, ?_⟩
      have hold : call ∉ failed load l := hnot
      cases hl : load c <;> simpa [failed, hl, hc] using hold
    | set c =>
      obtain ⟨_, _, rfl⟩ := step_set hstep
      refine ⟨?_, by simpa [failed] using hnot⟩
      by_cases hc : call = c
      · exact Or.inr (by simp [hc])
      · simpa [hc] using hphase
  exact hall.2

/-! ### One call at a time -/

omit [DecidableEq ι] in
/-- Calls whose loading fails leave an empty cell empty. -/
theorem runInits_failed {calls : List ι} (h : ∀ c ∈ calls, ∃ e, load c = .error e) :
    (runInits none (calls.map load)).1 = none ∧
      (runInits none (calls.map load)).2.map some =
        calls.map fun c => some ((load c).map fun _ => ()) := by
  induction calls with
  | nil => exact ⟨rfl, rfl⟩
  | cons c calls ih =>
    obtain ⟨⟨e, he⟩, hrest⟩ := List.forall_mem_cons.mp h
    obtain ⟨hcell, hanswers⟩ := ih hrest
    simp [runInits, initJsEngine, he, hcell, hanswers, Except.map]

omit [DecidableEq ι] in
theorem Inv.answer_failed (hinv : Inv load actions s) (hc : call ∈ failed load actions) :
    ∃ e, load call = .error e ∧ s.answer? call = some (.error e) := by
  have hfailing := (hinv.failed_iff call).mp hc
  have hagrees := hinv.agrees call
  cases hp : s.phase call with
  | returned answer =>
    rw [hp] at hfailing hagrees
    cases answer with
    | ok _ => cases hfailing
    | error e => exact ⟨e, hagrees, by simp [State.answer?, hp]⟩
  | fresh | loading | loaded => simp [hp, Phase.failing] at hfailing

omit [DecidableEq ι] in
theorem Inv.answer_succeeded (hinv : Inv load actions s) (hc : call ∈ succeeded actions) :
    s.answer? call = some (.ok ()) := by
  have hsucceeding := (hinv.succeeded_iff call).mp hc
  cases hp : s.phase call with
  | returned answer =>
    rw [hp] at hsucceeding
    cases answer with
    | ok _ => simp [State.answer?, hp]
    | error e => cases hsucceeding
  | fresh | loading | loaded => simp [hp, Phase.succeeding] at hsucceeding

omit [DecidableEq ι] in
theorem Inv.mem_order (hinv : Inv load actions s) :
    call ∈ order load actions ↔ (s.answer? call).isSome = true := by
  rw [order, List.mem_append, hinv.failed_iff, hinv.succeeded_iff]
  cases hp : s.phase call with
  | returned answer =>
    cases answer <;> simp [State.answer?, hp, Phase.failing, Phase.succeeding]
  | fresh | loading | loaded => simp [State.answer?, hp, Phase.failing, Phase.succeeding]

omit [DecidableEq ι] in
theorem Inv.order_once (hinv : Inv load actions s) : (order load actions).Nodup := by
  refine List.nodup_append.mpr ⟨hinv.failed_once, hinv.succeeded_once, fun c hc d hd he => ?_⟩
  obtain ⟨e, _, hfailed⟩ := hinv.answer_failed hc
  rw [he, hinv.answer_succeeded hd] at hfailed
  cases hfailed

/-- A call that returned before another began stands before it in the order. -/
theorem order_real_time {before after : List (Action ι)} {c d : ι}
    (hbefore : exec (step load) initial before = .ok t)
    (hafter : exec (step load) t after = .ok s) (hc : (t.answer? c).isSome = true)
    (hd : t.phase d = .fresh) (hd' : (s.answer? d).isSome = true) :
    [c, d].Sublist (order load (before ++ after)) := by
  have hinv := exec_inv hbefore
  have hinv' := exec_inv (exec_append_eq_ok.mpr ⟨t, hbefore, hafter⟩)
  have hnew : d ∉ order load before := by simp [hinv.mem_order, State.answer?, hd]
  have hdOrder := hinv'.mem_order.mpr hd'
  rw [order_append] at hdOrder ⊢
  rw [order] at hnew
  have hcOrder := hinv.mem_order.mpr hc
  rw [order] at hcOrder
  cases List.mem_append.mp hcOrder with
  | inl hcFailed =>
    have hdRest : d ∈ failed load after ++ (succeeded before ++ succeeded after) :=
      (List.mem_append.mp hdOrder).resolve_left fun h => hnew (List.mem_append_left _ h)
    exact (List.singleton_sublist.mpr hcFailed).append (List.singleton_sublist.mpr hdRest)
  | inr hcSucceeded =>
    obtain ⟨lib, hlib⟩ := Option.isSome_iff_exists.mp
      (hinv.full c ((hinv.succeeded_iff c).mp hcSucceeded))
    have hnotFailed := (later_succeeds hlib hd hafter).2
    have hdAfter : d ∈ succeeded after := by
      simp only [List.mem_append, not_or] at hnew hdOrder
      exact ((hdOrder.resolve_left hnew.1).resolve_left hnotFailed).resolve_left hnew.2
    have hpair : [c, d].Sublist (succeeded before ++ succeeded after) :=
      (List.singleton_sublist.mpr hcSucceeded).append (List.singleton_sublist.mpr hdAfter)
    exact (hpair.trans (List.sublist_append_right _ _)).trans (List.sublist_append_right _ _)

/-- However the threads interleave, the calls that returned have an order in which they could
have been made one at a time: each comes once, gets the answer it got and together they leave
the same cell, and a call that returned before another began comes before it. -/
theorem init_one_at_a_time (load : ι → Except String Engine) (actions : List (Action ι))
    (s : State ι) (h : exec (step load) initial actions = .ok s) :
    (order load actions).Nodup ∧
      (∀ c, c ∈ order load actions ↔ (s.answer? c).isSome = true) ∧
      (runInits none ((order load actions).map load)).1 = s.cell ∧
      (runInits none ((order load actions).map load)).2.map some =
        (order load actions).map s.answer? ∧
      ∀ before after t, actions = before ++ after →
        exec (step load) initial before = .ok t →
        ∀ c d, (t.answer? c).isSome = true → t.phase d = .fresh → (s.answer? d).isSome = true →
          [c, d].Sublist (order load actions) := by
  have hinv := exec_inv h
  have herrors : ∀ c ∈ failed load actions, ∃ e, load c = .error e := fun c hc =>
    (hinv.answer_failed hc).imp fun _ he => he.1
  obtain ⟨hcell, hanswers⟩ := runInits_failed herrors
  have hfailed : (failed load actions).map (fun c => some ((load c).map fun _ => ())) =
      (failed load actions).map s.answer? := by
    refine List.map_congr_left fun c hc => ?_
    obtain ⟨e, he, hanswer⟩ := hinv.answer_failed hc
    rw [hanswer, he]
    rfl
  have hsucceeded : (succeeded actions).map (fun _ => some (Except.ok ())) =
      (succeeded actions).map s.answer? :=
    List.map_congr_left fun c hc => (hinv.answer_succeeded hc).symm
  refine ⟨hinv.order_once, fun c => hinv.mem_order, ?_, ?_, ?_⟩
  · rw [order, List.map_append, runInits_append, hcell, hinv.replay]
  · rw [order, List.map_append, runInits_append, hcell, hinv.replay]
    simp [hanswers, hfailed, ← hsucceeded]
  · intro before after t hsplit hbefore c d hc hd hd'
    obtain rfl := hsplit
    obtain ⟨u, hu, hafter⟩ := exec_append_eq_ok.mp h
    obtain rfl : t = u := Except.ok.inj (hbefore.symm.trans hu)
    exact order_real_time hbefore hafter hc hd hd'

omit [DecidableEq ι] in
/-- The engine is that of the first call that succeeded. -/
theorem Inv.first_engine (hinv : Inv load actions s) {first : ι} {rest : List ι}
    (hs : succeeded actions = first :: rest) :
    ∃ lib, load first = .ok lib ∧ s.cell = some lib := by
  have hkeep (lib : Engine) (loads : List (Except String Engine)) :
      (runInits (some lib) loads).1 = some lib := by
    induction loads with
    | nil => rfl
    | cons load loads ih => exact ih
  have hreplay := hinv.replay
  rw [hs, List.map_cons] at hreplay
  cases hl : load first with
  | error e => simp [runInits, initJsEngine, hl] at hreplay
  | ok lib =>
    refine ⟨lib, rfl, ?_⟩
    have hcell := congrArg Prod.fst hreplay
    simp only [runInits, initJsEngine, hl, hkeep] at hcell
    exact hcell.symm

/-- Once a call has returned without an error there is an engine for good: every later reading
gives the engine that the first successful call loaded, and no call that begins later fails. -/
theorem engine_for_good (load : ι → Except String Engine) (actions later : List (Action ι))
    (s t : State ι) (h : exec (step load) initial actions = .ok s)
    (h' : exec (step load) s later = .ok t) (c : ι) (hc : s.answer? c = some (.ok ())) :
    ∃ first lib, (succeeded actions).head? = some first ∧ load first = .ok lib ∧
      jsEngine s.cell = .ok lib ∧ jsEngine t.cell = .ok lib ∧
      ∀ d, s.phase d = .fresh → t.answer? d = none ∨ t.answer? d = some (.ok ()) := by
  have hinv := exec_inv h
  have hmem : c ∈ succeeded actions := by
    have horder : c ∈ order load actions := hinv.mem_order.mpr (by rw [hc]; rfl)
    refine (List.mem_append.mp horder).resolve_left fun hfailed => ?_
    obtain ⟨e, _, hanswer⟩ := hinv.answer_failed hfailed
    rw [hc] at hanswer
    cases hanswer
  cases hs : succeeded actions with
  | nil =>
    rw [hs] at hmem
    cases hmem
  | cons first rest =>
    obtain ⟨lib, hlib, hcell⟩ := hinv.first_engine hs
    have hcell' : t.cell = some lib := cell_keeps hcell h'
    refine ⟨first, lib, rfl, hlib, by rw [hcell]; rfl, by rw [hcell']; rfl, fun d hd => ?_⟩
    obtain ⟨hphase | hphase, _⟩ := later_succeeds hcell hd h'
    · exact Or.inl (by simp [State.answer?, hphase])
    · exact Or.inr (by simp [State.answer?, hphase])

/-- The three points of a call that runs alone are `init_js_engine`. -/
theorem initJsEngine_alone (hfresh : s.phase call = .fresh) :
    ∃ alone t, exec (step load) s alone = .ok t ∧
      (t.cell, t.answer? call) =
        ((initJsEngine s.cell (load call)).1, some (initJsEngine s.cell (load call)).2) := by
  cases hcell : s.cell with
  | some lib =>
    have hget : step load s (.get call true) =
        .ok { s with phase := Function.update s.phase call (.returned (.ok ())) } := by
      simp [step, hfresh, hcell]
    refine ⟨[.get call true], _, exec_cons_eq_ok.mpr ⟨_, hget, rfl⟩, ?_⟩
    simp [State.answer?, initJsEngine, hcell]
  | none =>
    have hget : step load s (.get call false) =
        .ok { s with phase := Function.update s.phase call .loading } := by
      simp [step, hfresh, hcell]
    have hload : step load { s with phase := Function.update s.phase call .loading } (.load call) =
        .ok { s with phase := Function.update s.phase call (afterLoad (load call)) } := by
      simp [step]
    cases hl : load call with
    | error e =>
      refine ⟨[.get call false, .load call], _,
        exec_cons_eq_ok.mpr ⟨_, hget, exec_cons_eq_ok.mpr ⟨_, hload, rfl⟩⟩, ?_⟩
      simp [State.answer?, initJsEngine, hcell, hl, afterLoad]
    | ok lib =>
      have hset : step load { s with phase := Function.update s.phase call (afterLoad (load call)) }
          (.set call) = .ok ⟨some (s.cell.getD lib),
            Function.update (Function.update s.phase call (.loaded lib)) call
              (.returned (.ok ()))⟩ := by
        simp [step, hl, afterLoad]
      refine ⟨[.get call false, .load call, .set call], _, exec_cons_eq_ok.mpr ⟨_, hget,
        exec_cons_eq_ok.mpr ⟨_, hload, exec_cons_eq_ok.mpr ⟨_, hset, rfl⟩⟩⟩, ?_⟩
      simp [State.answer?, initJsEngine, hcell]

end Runs

/-! ### Three threads -/

def sampleEngine : Engine := ⟨fun _ _ _ _ => Traced.lift (.ok "")⟩

/-- The paths of the three calls: two libraries and no library. -/
def sampleLoad (call : Nat) : Except String Engine :=
  if call = 1 then .error "no such file" else .ok sampleEngine

/-- Two calls find the cell empty and load; the third begins when it is full. -/
def sampleActions : List (Action Nat) :=
  [.get 0 false, .get 1 false, .load 0, .set 0, .load 1, .get 2 true]

theorem init_one_at_a_time_three :
    ∃ s, exec (step sampleLoad) initial sampleActions = .ok s ∧
      order sampleLoad sampleActions = [1, 0, 2] ∧
      (runInits none ([1, 0, 2].map sampleLoad)).1 = s.cell := by
  refine ⟨_, rfl, by decide, ?_⟩
  exact (init_one_at_a_time sampleLoad sampleActions _ rfl).2.2.1

theorem engine_for_good_three :
    ∃ s t, exec (step sampleLoad) initial (sampleActions.take 4) = .ok s ∧
      exec (step sampleLoad) s (sampleActions.drop 4) = .ok t ∧
      ∃ first lib, (succeeded (sampleActions.take 4)).head? = some first ∧
        sampleLoad first = .ok lib ∧ jsEngine t.cell = .ok lib ∧
        (t.answer? 2 = none ∨ t.answer? 2 = some (.ok ())) := by
  refine ⟨_, _, rfl, rfl, ?_⟩
  obtain ⟨first, lib, hfirst, hlib, _, ht, hlater⟩ := engine_for_good sampleLoad
    (sampleActions.take 4) (sampleActions.drop 4) _ _ rfl rfl 0 rfl
  exact ⟨first, lib, hfirst, hlib, ht, hlater 2 rfl⟩

end Sapphillon.EngineCell
