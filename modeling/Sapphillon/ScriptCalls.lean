import Sapphillon.ShimRealm

/-! The calls a script makes through the functions that its pre-scripts install: they give what
the shims give, whatever was called before, and no other name can be called. -/
namespace Sapphillon.ScriptCalls
open JsSyntax JsEval JsEngine Plugin
open ShimProgram ShimRealm Envelope RemoteCall
open Sapphillon.Runtime Workflow

/-! ### Spellings -/

/-- The root object by its name or as a property of `globalThis`. -/
inductive SpellsRoot : Expr → Prop where
  | name : SpellsRoot (.name "Sapphillon")
  | property : SpellsRoot sapphillon

/-- A property behind a dot or in brackets. -/
inductive SpellsMember (e : Expr) (key : String) : Expr → Prop where
  | dot : SpellsMember e key (.member e key)
  | brackets : SpellsMember e key (.index e (.string key))

/-- `Sapphillon.pkg.func`, `globalThis.Sapphillon["pkg"]["func"]` and the like. -/
inductive SpellsFunction (pkg func : String) : Expr → Prop where
  | intro {root package f : Expr} (hroot : SpellsRoot root)
      (hpackage : SpellsMember root pkg package) (hf : SpellsMember package func f) :
      SpellsFunction pkg func f

variable {h : JsHeap} {fns : List (String × String)} {host : JsHost}
  {scope : Scope Json Native} {pkg func key : String} {arg e f : Expr} {k n a : Nat}
  {v : Value Json Native}

theorem denotes_spelledMember (hm : SpellsMember e key f) (hk : 1 ≤ k)
    (he : Denotes host scope h k e (.ref a)) (hget : getProp host h (.ref a) key = .ok v) :
    Denotes host scope h (k + 1) f v := by
  cases hm with
  | dot => exact denotes_member he hget
  | brackets => exact denotes_index hk he hget

/-- A property of nothing cannot be read. -/
theorem fails_spelledMember_nullish (hm : SpellsMember e key f) (hk : 1 ≤ k)
    (he : Denotes host scope h k e v) (hv : v.nullish = true) :
    ∃ msg, Fails host scope h (k + 1) f (.error msg) := by
  cases hm with
  | dot => exact ⟨_, fails_member_nullish he hv⟩
  | brackets => exact ⟨_, fails_index_nullish hk he hv⟩

theorem fails_spelledMember (hm : SpellsMember e key f) {stop : Stop Completion}
    (he : Fails host scope h k e stop) : Fails host scope h (k + 1) f stop := by
  cases hm with
  | dot => exact fails_member he
  | brackets => exact fails_index he

theorem denotes_spelledRoot (hhost : Visible host) (hscope : Unshadowed scope) (hready : Ready h)
    (hr : SpellsRoot e) {root : Nat}
    (hroot : h.own globalAddress "Sapphillon" = some (.ref root)) :
    Denotes host scope h 2 e (.ref root) := by
  cases hr with
  | name => exact (denotes_globalName hhost hscope (by decide) hroot).mono (by omega)
  | property => exact denotes_sapphillon hhost hscope hready hroot

/-! ### One call -/

/-- The function of a call and the code it stands for. -/
theorem denotes_function (hhost : Visible host) (hscope : Unshadowed scope)
    (hinst : Installed h fns) (hfn : (pkg, func) ∈ fns) (hpkg : pkg ≠ "__proto__")
    (hfunc : func ≠ "__proto__") (hspells : SpellsFunction pkg func f) :
    ∃ a < h.next, Denotes host scope h 4 f (.ref a) ∧ h.code a = some (shimCode pkg func) := by
  obtain ⟨hroot, hpackage, hf⟩ := hspells
  obtain ⟨hready, ⟨rfl, _⟩ | ⟨root, home, pkgs, hl⟩⟩ := hinst
  · cases hfn
  · obtain ⟨hp, a, ha, hown, hcode⟩ := hl.function _ hfn
    have hread := denotes_spelledRoot hhost hscope hready hroot hl.sapphillon
    have hobject := denotes_spelledMember hpackage (by omega) hread
      (getProp_own hpkg hl.root_object.2.2 (hl.package pkg hp))
    exact ⟨a, ha, denotes_spelledMember hf (by omega) hobject
      (getProp_own hfunc (hl.package_object pkg hp).2.2.2 hown), hcode⟩

/-- No other name can be called: there is no such package, or no such function in it. -/
theorem call_missing (hhost : Visible host) (hscope : Unshadowed scope)
    (hinst : Installed h fns) (hfn : (pkg, func) ∉ fns) (hpkg : Free host pkg)
    (hfunc : Free host func) (hspells : SpellsFunction pkg func f)
    (harg : Denotes host scope h k arg v) (hn : k + 6 ≤ n) :
    ∃ msg, evalExpr host n scope (.call f [arg]) h = Asking.stop (.error msg) := by
  obtain ⟨hroot, hpackage, hf⟩ := hspells
  obtain ⟨hready, ⟨_, hnone⟩ | ⟨root, home, pkgs, hl⟩⟩ := hinst
  · cases hroot with
    | name =>
      have hstop := fails_undefinedName (hscope "Sapphillon" (by decide))
        (hhost.visible _ (by decide)) hnone hhost.root.2
      exact ⟨_, fails_call (fails_spelledMember hf (fails_spelledMember hpackage hstop)) n
        (by omega)⟩
    | property =>
      have hread : Denotes host scope h 2 sapphillon .undefined := by
        simpa [hnone] using denotes_root hhost hscope hready
      obtain ⟨msg, hstop⟩ := fails_spelledMember_nullish hpackage (by omega) hread rfl
      exact ⟨msg, fails_call (fails_spelledMember hf hstop) n (by omega)⟩
  · have hread := denotes_spelledMember hpackage (by omega)
      (denotes_spelledRoot hhost hscope hready hroot hl.sapphillon)
      (getProp_notInherited hpkg.1 hl.root_object.2.2 hpkg.2)
    by_cases hp : pkg ∈ pkgs
    · rw [hl.package pkg hp] at hread
      have hget : getProp host h (.ref (home pkg)) func = .ok _ :=
        getProp_notInherited hfunc.1 (hl.package_object pkg hp).2.2.2 hfunc.2
      rw [hl.no_function pkg hp func hfn] at hget
      have hundefined := denotes_spelledMember hf (by omega) hread hget
      obtain ⟨m, rfl⟩ : ∃ m, n = m + 3 := ⟨n - 3, by omega⟩
      refine ⟨"not a function", ?_⟩
      rw [eval_call (hundefined.mono (by omega)) (Nat.le_refl _), evalArgs_cons,
        harg (m + 1) (by omega), pure_bind, evalArgs_nil, pure_bind, pure_bind]
      rfl
    · rw [hl.no_package pkg hp] at hread
      obtain ⟨msg, hstop⟩ := fails_spelledMember_nullish hf (by omega) hread rfl
      exact ⟨msg, fails_call hstop n (by omega)⟩

/-! ### Calls one after the other -/

/-- A call of a script with a value as its argument. -/
structure ScriptCall where
  pkg : String
  func : String
  f : Expr
  spells : SpellsFunction pkg func f
  args : JsValue

section Run
variable (js : JsJson) (toText : JsValue → String)
  (inherited : String → Option (Value Json Native))

/-- The scope of a call with its argument as `x`. -/
def argScope (args : JsValue) : Scope Json Native := some [("x", some (ofJs args))]

theorem unshadowed_argScope (args : JsValue) : Unshadowed (argScope args) := by
  change ∀ x ∈ globalNames, List.lookup x [("x", some (ofJs args))] = none
  simp [globalNames]

def evalCall (n : Nat) (c : ScriptCall) (h : JsHeap) : Run (Value Json Native × JsHeap) :=
  evalExpr (shimHost js toText inherited) n (argScope c.args) (.call c.f [.name "x"]) h

/-- Calls up to the first that throws. -/
def evalCalls (n : Nat) : List ScriptCall → JsHeap → Run (List (Value Json Native) × JsHeap)
  | [], h => return ([], h)
  | c :: cs, h => do
    let (v, h) ← evalCall js toText inherited n c h
    let (vs, h) ← evalCalls n cs h
    return (v :: vs, h)

/-- What the shim of a call gives. -/
def answerOf (c : ScriptCall) : Run (Value Json Native) :=
  ofJs <$> askShim js toText (opKey c.pkg c.func) (js.stringify (shimArgs c.args))

/-- The call is one of an installed function. -/
def ScriptCall.In (c : ScriptCall) (fns : List (String × String)) : Prop :=
  (c.pkg, c.func) ∈ fns ∧ c.pkg ≠ "__proto__" ∧ c.func ≠ "__proto__"

variable {inherited}
variable (hroot : inherited "Sapphillon" = none) (hjson : inherited "toJSON" = none)
include hroot hjson

theorem evalCall_installed (hinst : Installed h fns) {c : ScriptCall} (hc : c.In fns)
    (hn : 11 ≤ n) :
    ∃ h', evalCall js toText inherited n c h =
        (answerOf js toText c >>= fun v => pure (v, h')) ∧ Installed h' fns := by
  obtain ⟨a, ha, hf, hcode⟩ := denotes_function (visible_shimHost js toText hroot)
    (unshadowed_argScope c.args) hinst hc.1 hc.2.1 hc.2.2 c.spells
  obtain ⟨m, rfl⟩ : ∃ m, n = m + 3 := ⟨n - 3, by omega⟩
  obtain ⟨h', happly, hext⟩ := apply_shimCode js toText hjson hroot hinst.1 hcode
    (sends_ofJs h c.args) (show 9 ≤ m + 2 by omega)
  refine ⟨h', ?_, hinst.congr hext⟩
  have hx : Denotes (shimHost js toText inherited) (argScope c.args) h 1 (.name "x") (ofJs c.args) :=
    denotes_local rfl
  rw [evalCall, eval_call hf (by omega), evalArgs_cons, hx _ (by omega), pure_bind, evalArgs_nil,
    pure_bind, pure_bind, happly, answerOf]
  simp

/-- All the functions stay, so every call of a run gives what its shim gives. -/
theorem evalCalls_installed (hinst : Installed h fns) {calls : List ScriptCall}
    (hcalls : ∀ c ∈ calls, c.In fns) (hn : 11 ≤ n) :
    ∃ h', evalCalls js toText inherited n calls h =
        (calls.mapM (answerOf js toText) >>= fun vs => pure (vs, h')) ∧ Installed h' fns := by
  induction calls generalizing h with
  | nil => exact ⟨h, rfl, hinst⟩
  | cons c cs ih =>
    obtain ⟨hc, hcs⟩ := List.forall_mem_cons.mp hcalls
    obtain ⟨h₁, hcall, hinst₁⟩ := evalCall_installed js toText hroot hjson hinst hc hn
    obtain ⟨h₂, hrest, hinst₂⟩ := ih hinst₁ hcs
    refine ⟨h₂, ?_, hinst₂⟩
    calc evalCalls js toText inherited n (c :: cs) h
      _ = evalCall js toText inherited n c h >>= fun r =>
            evalCalls js toText inherited n cs r.2 >>= fun r' => pure (r.1 :: r'.1, r'.2) := rfl
      _ = (c :: cs).mapM (answerOf js toText) >>= fun vs => pure (vs, h₂) := by
        simp [hcall, hrest, List.mapM_cons]

omit hroot hjson

/-- The shims install their functions in a realm that has none. -/
theorem evalSources_fresh (strict : Bool) (hn : 7 ≤ n) (hhost : Visible host)
    {names : List (String × String)} (hnames : ∀ fn ∈ names, Installable host fn)
    (hready : Ready h) (hfresh : h.own globalAddress "Sapphillon" = none) :
    ∃ h', evalSources host strict n (names.map fun fn => externalShim fn.1 fn.2) h = pure h' ∧
      Installed h' names.reverse := by
  obtain ⟨h', heval, hinst⟩ := evalSources_shims strict hn hhost hnames
    (show Installed h [] from ⟨hready, Or.inl ⟨rfl, hfresh⟩⟩)
  exact ⟨h', heval, List.append_nil names.reverse ▸ hinst⟩

include hroot hjson

end Run

def sampleNames : List (String × String) := [("files", "read"), ("files", "list")]

def sampleCalls : List ScriptCall :=
  [⟨"files", "read", _, ⟨.name, .dot, .dot⟩, .undefined⟩,
    ⟨"files", "list", _, ⟨.property, .brackets, .dot⟩, .json (.object [("path", .string "/data")])⟩]

theorem sampleNames_installable {host : JsHost} (hinherited : ∀ key, host.inherited key = none) :
    ∀ fn ∈ sampleNames, Installable host fn := by
  simp only [sampleNames, List.forall_mem_cons]
  exact ⟨⟨by decide, by decide, ⟨by decide, hinherited _⟩, by decide⟩,
    ⟨by decide, by decide, ⟨by decide, hinherited _⟩, by decide⟩, fun _ h => by cases h⟩

/-- The names a package brings to the scripts. -/
def externalNames : PluginPackage → List (String × String)
  | .core _ => []
  | .external p => p.functions.map fun f => (f.packageId, f.name)

theorem preScripts_package {p : PluginPackage}
    (hinternal : ∀ c, p = .core c → ∀ f ∈ c.functions, f.preRunJs = none) :
    p.getFunctions.filterMap PluginFunction.getPreRunJs =
      (externalNames p).map fun fn => externalShim fn.1 fn.2 := by
  cases p with
  | core c =>
    simpa [PluginPackage.getFunctions, CorePluginPackage.getFunctions, externalNames,
      PluginFunction.getPreRunJs, CorePluginFunction.toRef] using hinternal c rfl
  | external p =>
    simp [PluginPackage.getFunctions, CorePluginExternalPackage.getFunctions, externalNames,
      PluginFunction.getPreRunJs, ExternalFnRef.getPreRunJs, CorePluginExternalFunction.toRef,
      Function.comp_def]

/-- Where the internal functions bring no text of their own, the pre-scripts are the shims. -/
theorem preScripts_shims {w : CoreWorkflowCode}
    (hinternal : ∀ c, .core c ∈ w.pluginPackages → ∀ f ∈ c.functions, f.preRunJs = none) :
    w.preScripts =
      (w.pluginPackages.flatMap externalNames).map fun fn => externalShim fn.1 fn.2 := by
  rw [w.preScripts_eq, List.filterMap_flatMap, List.map_flatMap]
  refine List.flatMap_congr fun p hp => preScripts_package fun c hc => ?_
  rw [hc] at hp
  exact hinternal c hp

end Sapphillon.ScriptCalls
