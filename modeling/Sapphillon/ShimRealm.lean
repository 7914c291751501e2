import Sapphillon.JsEval
import Sapphillon.ShimProgram
import Sapphillon.RemoteCall
import Mathlib.Data.List.Dedup

/-! What the shims do to the globals of a script: evaluated one after the other they install
one function for each external function below `Sapphillon`, and nothing else. -/
namespace Sapphillon.ShimRealm
open JsSyntax JsEval JsEngine Plugin
open ShimText ShimProgram RemoteCall
open Sapphillon.Runtime

/-! ### The globals of `plugin.js` -/

/-- What a program asks of the module it runs in: to put a text, or to call the host function. -/
inductive ModuleCall where
  | console (method : ConsoleMethod) (args : List String)
  | dispatch (input : String)

def ModuleCall.Reply : ModuleCall → Type
  | .console _ _ => Unit
  | .dispatch _ => String

abbrev Run (α : Type) := Asking ModuleCall.Reply (Stop Completion) α

inductive Native where
  | dispatch
  | stringify
  | parse
  | console (method : ConsoleMethod)

abbrev JsHeap := Heap Json Native

abbrev JsHost := Host Json Native Completion ModuleCall.Reply

/-- A value of the bridge inside a program. -/
def ofJs : JsValue → Value Json Native
  | .undefined => .undefined
  | .json .null => .null
  | .json (.string s) => .string s
  | .json j => .data j

def toJs? : Value Json Native → Option JsValue
  | .undefined => some .undefined
  | .null => some (.json .null)
  | .string s => some (.json (.string s))
  | .data j => some (.json j)
  | _ => none

theorem toJs?_ofJs (v : JsValue) : toJs? (ofJs v) = some v := by
  cases v with
  | undefined => rfl
  | json j => cases j <;> rfl

/-- A completion as the outcome of an expression. -/
def outcome : Completion → Except (Stop Completion) JsValue
  | .returned v => .ok v
  | c => .error (.host c)

/-- Keys of this kind are enumerated in front of the others. -/
def isIndex (key : String) : Bool := key ≠ "" && key.toList.all Char.isDigit

/-- The keys of an object in the order in which they were first written. -/
def ownKeys (h : JsHeap) (a : Nat) : List String := ((h.objs a).props.map Prod.fst).dedup.reverse

/-- A value as `JSON.stringify` reads it, to some depth. Functions, `undefined` in a field, a
method `toJSON` and numbers as keys are left out. -/
def toJson (h : JsHeap) : Nat → Value Json Native → Option Json
  | _, .null => some .null
  | _, .string s => some (.string s)
  | _, .data j => some j
  | n + 1, .ref a =>
    if (h.code a).isSome ∨ (ownKeys h a).any fun key => isIndex key || key == "toJSON" then none
    else ((ownKeys h a).mapM fun key =>
      (h.own a key).bind fun v => (toJson h n v).map (key, ·)).map Json.object
  | _, _ => none

section Host
variable (js : JsJson) (toText : JsValue → String) (inherited : String → Option (Value Json Native))

/-- `JSON.stringify` of a value other than `undefined`. -/
def stringifyValue (h : JsHeap) (v : Value Json Native) : Except (Stop Completion) String :=
  if (inherited "toJSON").isSome then .error .outside
  else match toJson h h.next v with
    | some j => .ok (js.stringify j)
    | none => .error .outside

/-- The text of one argument of a console function. -/
def formatValue (h : JsHeap) : Value Json Native → Except (Stop Completion) String
  | .undefined => .ok (toText .undefined)
  | .string s => .ok (toText (.json (.string s)))
  | .data (.bool b) => .ok (toText (.json (.bool b)))
  | .data (.number x) => .ok (toText (.json (.number x)))
  | v => stringifyValue js inherited h v

/-- The request that `__sapphillon_dispatch` makes of a key and a text of arguments. -/
def request (opKey argsJson : String) : String :=
  js.stringify (.object [("op_key", .string opKey), ("args_json", .string argsJson)])

/-- `__sapphillon_dispatch`. -/
def askDispatch (opKey argsJson : String) : Run JsValue := do
  let raw : String ← Asking.query (ModuleCall.dispatch (request js opKey argsJson))
  Asking.lift (outcome (readEnvelope js raw))

def callNative : Native → List (Value Json Native) → JsHeap → Run (Value Json Native × JsHeap)
  | .dispatch, [.string opKey, .string argsJson], h => do
    let v ← askDispatch js opKey argsJson
    return (ofJs v, h)
  | .stringify, [v], h => do
    let s ← Asking.lift (stringifyValue js inherited h v)
    return (.string s, h)
  | .parse, [v], h =>
    match toJs? v with
    | some v => do
      let v ← Asking.lift (outcome (parseRaw js toText v))
      return (ofJs v, h)
    | none => Asking.stop .outside
  -- A console function returns the new length of the captured output.
  | .console method, vs, h => do
    let args ← Asking.lift (vs.mapM (formatValue js toText inherited h))
    let _ ← Asking.query (ModuleCall.console method args)
    return (.hidden, h)
  | _, _, _ => Asking.stop .outside

/-- The names `plugin.js` declares around `eval`. -/
def pluginNames : List String :=
  ["arguments", "input", "script", "preScripts", "stdoutBuf", "_put", "_fmt", "src", "run_script",
    "module", "exports", "require"]

def shimHost : JsHost where
  inherited := inherited
  surrounding := pluginNames
  native := callNative js toText inherited

end Host

def jsonAddress : Nat := 1

def consoleAddress : Nat := 2

def methodName : ConsoleMethod → String
  | .log => "log"
  | .info => "info"
  | .warn => "warn"
  | .error => "error"
  | .debug => "debug"

/-- The globals `plugin.js` installs and those a shim uses are there and have not been replaced. -/
structure Ready (h : JsHeap) : Prop where
  global : h.own globalAddress "globalThis" = some (.ref globalAddress)
  dispatch : h.own globalAddress "__sapphillon_dispatch" = some (.native .dispatch)
  json : h.own globalAddress "JSON" = some (.ref jsonAddress)
  stringify : h.own jsonAddress "stringify" = some (.native .stringify)
  parse : h.own jsonAddress "parse" = some (.native .parse)
  console : h.own globalAddress "console" = some (.ref consoleAddress)
  method : ∀ m, h.own consoleAddress (methodName m) = some (.native (.console m))
  code : ∀ a ≤ consoleAddress, h.code a = none
  used : consoleAddress < h.next

/-- These globals and no others. -/
def freshRealm : JsHeap where
  objs
    | 0 => ⟨[("globalThis", .ref globalAddress), ("__sapphillon_dispatch", .native .dispatch),
        ("JSON", .ref jsonAddress), ("console", .ref consoleAddress)], none⟩
    | 1 => ⟨[("stringify", .native .stringify), ("parse", .native .parse)], none⟩
    | 2 => ⟨[ConsoleMethod.log, .info, .warn, .error, .debug].map
        fun m => (methodName m, .native (.console m)), none⟩
    | _ => ⟨[], none⟩
  next := 3

theorem ready_freshRealm : Ready freshRealm where
  global := rfl
  dispatch := rfl
  json := rfl
  stringify := rfl
  parse := rfl
  console := rfl
  method m := by cases m <;> rfl
  code
    | 0, _ => rfl
    | 1, _ => rfl
    | 2, _ => rfl
  used := Nat.lt_succ_self 2

/-- The function a shim installs. -/
def shimCode (pkg func : String) : Code := ⟨["args"], shimBody (opKey pkg func)⟩

/-- The objects below `Sapphillon`: one for each package, with one function for each pair. -/
structure Layout (h : JsHeap) (root : Nat) (home : String → Nat) (pkgs : List String)
    (fns : List (String × String)) : Prop where
  sapphillon : h.own globalAddress "Sapphillon" = some (.ref root)
  root_object : consoleAddress < root ∧ root < h.next ∧ h.code root = none
  package : ∀ p ∈ pkgs, h.own root p = some (.ref (home p))
  package_object : ∀ p ∈ pkgs, root ≠ home p ∧ consoleAddress < home p ∧ home p < h.next ∧
    h.code (home p) = none
  package_own : ∀ p ∈ pkgs, ∀ q ∈ pkgs, home p = home q → p = q
  no_package : ∀ p, p ∉ pkgs → h.own root p = none
  function : ∀ fn ∈ fns, fn.1 ∈ pkgs ∧ ∃ a < h.next, h.own (home fn.1) fn.2 = some (.ref a) ∧
    h.code a = some (shimCode fn.1 fn.2)
  no_function : ∀ p ∈ pkgs, ∀ f, (p, f) ∉ fns → h.own (home p) f = none

/-! ### The three statements on the heap -/

variable {h : JsHeap} {root : Nat} {home : String → Nat} {pkgs : List String}
  {fns : List (String × String)}

/-- What a change keeps of the globals: everything but `Sapphillon`. -/
theorem Ready.keep {h' : JsHeap} (hready : Ready h) (hnext : h.next ≤ h'.next)
    (hcode : ∀ b < h.next, h'.code b = h.code b)
    (hglobal : ∀ key, key ≠ "Sapphillon" → h'.own globalAddress key = h.own globalAddress key)
    (hown : ∀ a, globalAddress < a → a ≤ consoleAddress → ∀ key, h'.own a key = h.own a key) :
    Ready h' where
  global := (hglobal _ (by decide)).trans hready.global
  dispatch := (hglobal _ (by decide)).trans hready.dispatch
  json := (hglobal _ (by decide)).trans hready.json
  stringify := (hown _ (by decide) (by decide) _).trans hready.stringify
  parse := (hown _ (by decide) (by decide) _).trans hready.parse
  console := (hglobal _ (by decide)).trans hready.console
  method m := (hown _ (by decide) (by decide) _).trans (hready.method m)
  code a ha := (hcode _ (Nat.lt_of_le_of_lt ha hready.used)).trans (hready.code a ha)
  used := Nat.lt_of_lt_of_le hready.used hnext

theorem Ready.global_used (hready : Ready h) : globalAddress < h.next :=
  Nat.lt_trans (by decide) hready.used

theorem Ready.global_code (hready : Ready h) : h.code globalAddress = none :=
  hready.code _ (by decide)

theorem Ready.congr {h' : JsHeap} (hready : Ready h) (hext : h.Extends h') : Ready h' :=
  hready.keep hext.next hext.code (fun key _ => hext.own _ hready.global_used key)
    fun _ _ ha => hext.own _ (Nat.lt_of_le_of_lt ha hready.used)

/-- The layout is a matter of what can be read of the objects in use. -/
theorem Layout.congr {h' : JsHeap} (hl : Layout h root home pkgs fns) (hready : Ready h)
    (hext : h.Extends h') : Layout h' root home pkgs fns where
  sapphillon := (hext.own _ hready.global_used _).trans hl.sapphillon
  root_object := by
    obtain ⟨hconsole, hlt, hc⟩ := hl.root_object
    exact ⟨hconsole, Nat.lt_of_lt_of_le hlt hext.next, (hext.code _ hlt).trans hc⟩
  package p hp := (hext.own _ hl.root_object.2.1 _).trans (hl.package p hp)
  package_object p hp := by
    obtain ⟨hne, hconsole, hlt, hc⟩ := hl.package_object p hp
    exact ⟨hne, hconsole, Nat.lt_of_lt_of_le hlt hext.next, (hext.code _ hlt).trans hc⟩
  package_own := hl.package_own
  no_package p hp := (hext.own _ hl.root_object.2.1 _).trans (hl.no_package p hp)
  function fn hfn := by
    obtain ⟨hp, a, ha, hf, hc⟩ := hl.function fn hfn
    exact ⟨hp, a, Nat.lt_of_lt_of_le ha hext.next,
      (hext.own _ (hl.package_object _ hp).2.2.1 _).trans hf, (hext.code _ ha).trans hc⟩
  no_function p hp f hf :=
    (hext.own _ (hl.package_object p hp).2.2.1 _).trans (hl.no_function p hp f hf)

/-- The functions of a list are installed and no others. -/
def Installed (h : JsHeap) (fns : List (String × String)) : Prop :=
  Ready h ∧ (fns = [] ∧ h.own globalAddress "Sapphillon" = none ∨
    ∃ root home pkgs, Layout h root home pkgs fns)

theorem Installed.congr {h' : JsHeap} (hinst : Installed h fns) (hext : h.Extends h') :
    Installed h' fns := by
  obtain ⟨hready, hcases⟩ := hinst
  refine ⟨hready.congr hext, ?_⟩
  obtain ⟨hfns, hnone⟩ | ⟨root, home, pkgs, hl⟩ := hcases
  · exact Or.inl ⟨hfns, (hext.own _ hready.global_used _).trans hnone⟩
  · exact Or.inr ⟨root, home, pkgs, hl.congr hready hext⟩

/-- `globalThis.Sapphillon = globalThis.Sapphillon ?? {}`. -/
theorem installed_root (hinst : Installed h fns) :
    Ready (h.fill globalAddress "Sapphillon") ∧
      ∃ root home pkgs, Layout (h.fill globalAddress "Sapphillon") root home pkgs fns := by
  obtain ⟨hready, hcases⟩ := hinst
  have hused : globalAddress < h.next := hready.global_used
  have hready' : Ready (h.fill globalAddress "Sapphillon") :=
    hready.keep (Heap.next_fill _ _ _) (fun b hb => Heap.code_fill _ _ _ hb)
      (fun key hkey => Heap.own_fill _ _ _ hused fun _ => hkey)
      fun a hpos ha key => Heap.own_fill _ _ _ (Nat.lt_of_le_of_lt ha hready.used)
        fun he => absurd he (Nat.ne_of_gt hpos)
  refine ⟨hready', ?_⟩
  obtain ⟨rfl, hnone⟩ | ⟨root, home, pkgs, hl⟩ := hcases
  · refine ⟨h.next, fun _ => 0, [], ?_⟩
    rw [Heap.fill_none _ _ _ hnone]
    constructor
    case sapphillon => simp
    case root_object => exact ⟨hready.used, by simp, by simp⟩
    case no_package =>
      intro p _
      rw [Heap.own_set_other _ _ _ _ (Nat.ne_of_gt hused), Heap.own_alloc_new]
      rfl
    all_goals simp
  · exact ⟨root, home, pkgs, hl.congr hready (Heap.extends_fill _ _ _ _ hl.sapphillon)⟩

/-- Nothing changes among the globals when another object does. -/
theorem Ready.fill {a : Nat} (hready : Ready h) (ha : consoleAddress < a) (key : String) :
    Ready (h.fill a key) := by
  have hne {b : Nat} (hb : b ≤ consoleAddress) : b ≠ a := Nat.ne_of_lt (Nat.lt_of_le_of_lt hb ha)
  exact hready.keep (Heap.next_fill _ _ _) (fun b hb => Heap.code_fill _ _ _ hb)
    (fun _ _ => Heap.own_fill _ _ _ hready.global_used fun he => absurd he (hne (by decide)))
    fun b _ hb _ => Heap.own_fill _ _ _ (Nat.lt_of_le_of_lt hb hready.used)
      fun he => absurd he (hne hb)

/-- `globalThis.Sapphillon[pkg] = globalThis.Sapphillon[pkg] ?? {}`. -/
theorem layout_package (hready : Ready h) (hl : Layout h root home pkgs fns) (pkg : String) :
    ∃ home' pkgs', pkg ∈ pkgs' ∧ Layout (h.fill root pkg) root home' pkgs' fns := by
  by_cases hp : pkg ∈ pkgs
  · exact ⟨home, pkgs, hp, hl.congr hready (Heap.extends_fill _ _ _ _ (hl.package pkg hp))⟩
  · have hnone := hl.no_package pkg hp
    obtain ⟨hconsole, hroot, hrootCode⟩ := hl.root_object
    have hne {p : String} (h' : p ∈ pkgs) : p ≠ pkg := fun he => hp (he ▸ h')
    have hhome {p : String} (h' : p ∈ pkgs) : Function.update home pkg h.next p = home p :=
      Function.update_of_ne (hne h') _ _
    have hnew : Function.update home pkg h.next pkg = h.next := Function.update_self ..
    have hown {b : Nat} {key : String} (hb : b < h.next) (hk : b = root → key ≠ pkg) :
        (h.fill root pkg).own b key = h.own b key := Heap.own_fill _ _ _ hb hk
    have hcode {b : Nat} (hb : b < h.next) : (h.fill root pkg).code b = h.code b :=
      Heap.code_fill _ _ _ hb
    have hnext : (h.fill root pkg).next = h.next + 1 := by
      rw [Heap.fill_none _ _ _ hnone]
      rfl
    refine ⟨Function.update home pkg h.next, pkg :: pkgs, .head _, ?_⟩
    constructor
    case sapphillon =>
      rw [hown hready.global_used
        fun he => absurd he (Nat.ne_of_lt (Nat.lt_trans (by decide) hconsole))]
      exact hl.sapphillon
    case root_object => exact ⟨hconsole, by omega, (hcode hroot).trans hrootCode⟩
    case package =>
      intro p hmem
      cases List.mem_cons.mp hmem with
      | inl he => rw [he, hnew, Heap.fill_none _ _ _ hnone, Heap.own_set_same]
      | inr h' => rw [hhome h', hown hroot fun _ => hne h', hl.package p h']
    case package_object =>
      intro p hmem
      cases List.mem_cons.mp hmem with
      | inl he =>
        rw [he, hnew, hnext]
        refine ⟨Nat.ne_of_lt hroot, hready.used, Nat.lt_succ_self _, ?_⟩
        rw [Heap.fill_none _ _ _ hnone, Heap.code_set, Heap.code_alloc_new]
      | inr h' =>
        obtain ⟨hne', hconsole', hlt, hc⟩ := hl.package_object p h'
        rw [hhome h', hnext]
        exact ⟨hne', hconsole', by omega, (hcode hlt).trans hc⟩
    case package_own =>
      intro p hmem q hmem' heq
      cases List.mem_cons.mp hmem with
      | inl he =>
        cases List.mem_cons.mp hmem' with
        | inl he' => rw [he, he']
        | inr h' =>
          rw [he, hnew, hhome h'] at heq
          exact absurd heq (Nat.ne_of_gt (hl.package_object q h').2.2.1)
      | inr h' =>
        cases List.mem_cons.mp hmem' with
        | inl he =>
          rw [he, hnew, hhome h'] at heq
          exact absurd heq (Nat.ne_of_lt (hl.package_object p h').2.2.1)
        | inr h'' =>
          rw [hhome h', hhome h''] at heq
          exact hl.package_own p h' q h'' heq
    case no_package =>
      intro p hmem
      obtain ⟨hne', hmem'⟩ := not_or.mp (mt List.mem_cons.mpr hmem)
      rw [hown hroot fun _ => hne', hl.no_package p hmem']
    case function =>
      intro fn hfn
      obtain ⟨h', a, ha, hf, hc⟩ := hl.function fn hfn
      obtain ⟨hne', _, hlt, _⟩ := hl.package_object _ h'
      refine ⟨.tail _ h', a, by omega, ?_, (hcode ha).trans hc⟩
      rw [hhome h', hown hlt fun he => absurd he (Ne.symm hne'), hf]
    case no_function =>
      intro p hmem f hf
      cases List.mem_cons.mp hmem with
      | inl he =>
        rw [he, hnew, Heap.fill_none _ _ _ hnone, Heap.own_set_other _ _ _ _ (Nat.ne_of_gt hroot),
          Heap.own_alloc_new]
        rfl
      | inr h' =>
        obtain ⟨hne', _, hlt, _⟩ := hl.package_object p h'
        rw [hhome h', hown hlt fun he => absurd he (Ne.symm hne'), hl.no_function p h' f hf]

/-- `globalThis.Sapphillon[pkg][func] = function(args) { .. }`. -/
theorem layout_function (hready : Ready h) (hl : Layout h root home pkgs fns) {pkg : String}
    (hp : pkg ∈ pkgs) (func : String) :
    let h' := (h.alloc ⟨[], some (shimCode pkg func)⟩).set (home pkg) func (.ref h.next)
    Ready h' ∧ Layout h' root home pkgs ((pkg, func) :: fns) := by
  intro h'
  obtain ⟨hroot, hhome, hhomeLt, _⟩ := hl.package_object pkg hp
  have hown {b : Nat} {key : String} (hb : b < h.next) (hk : b = home pkg → key ≠ func) :
      h'.own b key = h.own b key := by
    by_cases hba : b = home pkg
    · rw [hba, Heap.own_set_key _ _ _ _ (hk hba), Heap.own_alloc _ _ hhomeLt]
    · rw [Heap.own_set_other _ _ _ _ hba, Heap.own_alloc _ _ hb]
  have hcode {b : Nat} (hb : b < h.next) : h'.code b = h.code b := by
    rw [Heap.code_set, Heap.code_alloc _ _ hb]
  have hnext : h'.next = h.next + 1 := rfl
  have hother {p : String} (h₀ : p ∈ pkgs) (hne : p ≠ pkg) : home p ≠ home pkg :=
    fun he => hne (hl.package_own p h₀ pkg hp he)
  have hglobal : globalAddress ≠ home pkg := Nat.ne_of_lt (Nat.lt_trans (by decide) hhome)
  refine ⟨hready.keep (by omega) (fun b hb => hcode hb) (fun key _ => ?_) (fun b _ hb key => ?_), ?_⟩
  · exact hown hready.global_used fun he => absurd he hglobal
  · exact hown (Nat.lt_of_le_of_lt hb hready.used)
      fun he => absurd he (Nat.ne_of_lt (Nat.lt_of_le_of_lt hb hhome))
  constructor
  case sapphillon =>
    rw [hown hready.global_used fun he => absurd he hglobal]
    exact hl.sapphillon
  case root_object =>
    obtain ⟨hconsole, hlt, hc⟩ := hl.root_object
    exact ⟨hconsole, by omega, (hcode hlt).trans hc⟩
  case package =>
    intro p h₀
    rw [hown hl.root_object.2.1 fun he => absurd he hroot]
    exact hl.package p h₀
  case package_object =>
    intro p h₀
    obtain ⟨hne, hconsole, hlt, hc⟩ := hl.package_object p h₀
    exact ⟨hne, hconsole, by omega, (hcode hlt).trans hc⟩
  case package_own => exact hl.package_own
  case no_package =>
    intro p h₀
    rw [hown hl.root_object.2.1 fun he => absurd he hroot]
    exact hl.no_package p h₀
  case function =>
    intro fn hfn
    by_cases he : fn = (pkg, func)
    · rw [he]
      refine ⟨hp, h.next, by omega, Heap.own_set_same _ _ _ _, ?_⟩
      rw [Heap.code_set, Heap.code_alloc_new]
    · have hold := (List.mem_cons.mp hfn).resolve_left he
      obtain ⟨h₀, a, ha, hf, hc⟩ := hl.function fn hold
      refine ⟨h₀, a, by omega, ?_, (hcode ha).trans hc⟩
      rw [hown (hl.package_object _ h₀).2.2.1 fun hsame hkey => ?_, hf]
      exact he (Prod.ext (hl.package_own _ h₀ pkg hp hsame) hkey)
  case no_function =>
    intro p h₀ f hf
    obtain ⟨hne, hold⟩ := not_or.mp (mt List.mem_cons.mpr hf)
    rw [hown (hl.package_object p h₀).2.2.1 fun hsame hkey => ?_, hl.no_function p h₀ f hold]
    exact hne (Prod.ext (hl.package_own p h₀ pkg hp hsame) hkey)

/-! ### The evaluation of a shim -/

variable {host : JsHost} {scope : Scope Json Native}

/-- A name that an object has neither from the start nor by inheritance. -/
def Free (host : JsHost) (name : String) : Prop :=
  name ≠ "__proto__" ∧ host.inherited name = none

def globalNames : List String :=
  ["globalThis", "Sapphillon", "JSON", "__sapphillon_dispatch", "console"]

/-- The globals can be read by their names, and `Sapphillon` is not there from the start. -/
structure Visible (host : JsHost) : Prop where
  root : Free host "Sapphillon"
  visible : ∀ x ∈ globalNames, x ∉ host.surrounding

/-- No name of a scope stands before the globals. -/
def Unshadowed (scope : Scope Json Native) : Prop :=
  ∀ x ∈ globalNames, (scope.getD []).lookup x = none

theorem unshadowed_none : Unshadowed none := fun _ _ => rfl

theorem denotes_globalName (hhost : Visible host) (hscope : Unshadowed scope) {x : String}
    (hx : x ∈ globalNames) {v : Value Json Native} (hown : h.own globalAddress x = some v) :
    Denotes host scope h 1 (.name x) v :=
  denotes_global (hscope x hx) (hhost.visible x hx) hown

theorem denotes_globalThis (hhost : Visible host) (hscope : Unshadowed scope) (hready : Ready h) :
    Denotes host scope h 1 (.name "globalThis") (.ref globalAddress) :=
  denotes_globalName hhost hscope (by decide) hready.global

theorem denotes_root (hhost : Visible host) (hscope : Unshadowed scope) (hready : Ready h) :
    Denotes host scope h 2 sapphillon ((h.own globalAddress "Sapphillon").getD .undefined) :=
  denotes_member (denotes_globalThis hhost hscope hready)
    (getProp_notInherited hhost.root.1 hready.global_code hhost.root.2)

theorem denotes_sapphillon (hhost : Visible host) (hscope : Unshadowed scope) (hready : Ready h)
    (hroot : h.own globalAddress "Sapphillon" = some (.ref root)) :
    Denotes host scope h 2 sapphillon (.ref root) :=
  denotes_member (denotes_globalThis hhost hscope hready)
    (getProp_own (by decide) hready.global_code hroot)

theorem denotes_package (hhost : Visible host) (hscope : Unshadowed scope) (hready : Ready h)
    (hl : Layout h root home pkgs fns) {pkg : String} (hfree : Free host pkg) :
    Denotes host scope h 3 (packageObject pkg) ((h.own root pkg).getD .undefined) :=
  denotes_index (by omega) (denotes_sapphillon hhost hscope hready hl.sapphillon)
    (getProp_notInherited hfree.1 hl.root_object.2.2 hfree.2)

theorem denotes_packageObject (hhost : Visible host) (hscope : Unshadowed scope) (hready : Ready h)
    (hl : Layout h root home pkgs fns) {pkg : String} (hp : pkg ∈ pkgs)
    (hproto : pkg ≠ "__proto__") :
    Denotes host scope h 3 (packageObject pkg) (.ref (home pkg)) :=
  denotes_index (by omega) (denotes_sapphillon hhost hscope hready hl.sapphillon)
    (getProp_own hproto hl.root_object.2.2 (hl.package pkg hp))

theorem exec_root (hhost : Visible host) (hinst : Installed h fns) {rest : List Stmt} {m : Nat}
    (hm : 3 ≤ m) :
    execStmts host (m + 1) none (.assign sapphillon (.coalesce sapphillon (.object [])) :: rest) h =
      execStmts host m none rest (h.fill globalAddress "Sapphillon") := by
  obtain ⟨hready, hcases⟩ := hinst
  have hown (v : Value Json Native) (hv : h.own globalAddress "Sapphillon" = some v) :
      v.nullish = false := by
    obtain ⟨_, hnone⟩ | ⟨root, home, pkgs, hl⟩ := hcases
    · rw [hnone] at hv
      cases hv
    · rw [hl.sapphillon] at hv
      obtain rfl := Option.some.inj hv
      rfl
  refine exec_assign_member (denotes_globalThis hhost unshadowed_none hready) (by omega)
    (eval_orNew (denotes_root hhost unshadowed_none hready) hown hm (by omega)) hhost.root.1 ?_
  rw [code_orNew hready.global_used, hready.global_code]

theorem exec_package (hhost : Visible host) (hready : Ready h) (hl : Layout h root home pkgs fns)
    {pkg : String} (hfree : Free host pkg) {rest : List Stmt} {m : Nat} (hm : 4 ≤ m) :
    execStmts host (m + 1) none
        (.assign (packageObject pkg) (.coalesce (packageObject pkg) (.object [])) :: rest) h =
      execStmts host m none rest (h.fill root pkg) := by
  obtain ⟨_, hroot, hrootCode⟩ := hl.root_object
  have hown (v : Value Json Native) (hv : h.own root pkg = some v) : v.nullish = false := by
    by_cases hp : pkg ∈ pkgs
    · rw [hl.package pkg hp] at hv
      obtain rfl := Option.some.inj hv
      rfl
    · rw [hl.no_package pkg hp] at hv
      cases hv
  refine exec_assign_index (denotes_sapphillon hhost unshadowed_none hready hl.sapphillon)
    (by omega) (by omega)
    (eval_orNew (denotes_package hhost unshadowed_none hready hl hfree) hown hm (by omega)) hfree.1 ?_
  rw [code_orNew hroot, hrootCode]

/-- A shim adds its function to the functions that are installed. -/
theorem exec_shimProgram (hhost : Visible host) {pkg func : String} (hpkg : Free host pkg)
    (hfunc : func ≠ "__proto__") (hinst : Installed h fns) {n : Nat} (hn : 7 ≤ n) :
    ∃ h', execStmts host n none (shimProgram pkg func) h = pure (none, h') ∧
      Installed h' ((pkg, func) :: fns) := by
  obtain ⟨m, rfl⟩ : ∃ m, n = m + 4 := ⟨n - 4, by omega⟩
  obtain ⟨hready₁, root, home, pkgs, hl₁⟩ := installed_root hinst
  have hready₂ := hready₁.fill hl₁.root_object.1 pkg
  obtain ⟨home', pkgs', hp, hl₂⟩ := layout_package hready₁ hl₁ pkg
  obtain ⟨hready₃, hl₃⟩ := layout_function hready₂ hl₂ hp func
  refine ⟨_, ?_, hready₃, Or.inr ⟨_, _, _, hl₃⟩⟩
  obtain ⟨_, _, hlt, hcode⟩ := hl₂.package_object pkg hp
  rw [shimProgram, exec_root hhost hinst (by omega), exec_package hhost hready₁ hl₁ hpkg (by omega)]
  rw [exec_assign_index (denotes_packageObject hhost unshadowed_none hready₂ hl₂ hp hpkg.1)
    (by omega) (by omega) rfl hfunc]
  · rfl
  · rw [Heap.code_alloc _ _ hlt, hcode]

/-- Names that a shim installs a function under: plain texts that objects do not have anyway. -/
structure Installable (host : JsHost) (fn : String × String) : Prop where
  pkg_plain : PlainName fn.1
  func_plain : PlainName fn.2
  pkg_free : Free host fn.1
  func_proto : fn.2 ≠ "__proto__"

/-- The texts of shims, evaluated one after the other, install exactly their functions. -/
theorem evalSources_shims (strict : Bool) {n : Nat} (hn : 7 ≤ n) (hhost : Visible host)
    {names : List (String × String)} (hnames : ∀ fn ∈ names, Installable host fn)
    (hinst : Installed h fns) :
    ∃ h', evalSources host strict n (names.map fun fn => externalShim fn.1 fn.2) h = pure h' ∧
      Installed h' (names.reverse ++ fns) := by
  induction names generalizing h fns with
  | nil => exact ⟨h, rfl, hinst⟩
  | cons fn names ih =>
    obtain ⟨hfn, hnames⟩ := List.forall_mem_cons.mp hnames
    obtain ⟨h₁, hexec, hinst₁⟩ := exec_shimProgram hhost hfn.pkg_free hfn.func_proto hinst hn
    obtain ⟨h₂, hrest, hinst₂⟩ := ih hnames hinst₁
    refine ⟨h₂, ?_, by simpa using hinst₂⟩
    have hsource : evalSource host strict n (externalShim fn.1 fn.2) h = pure h₁ := by
      simp only [evalSource, parse, lex_externalShim strict hfn.pkg_plain hfn.func_plain,
        parse_shimTokens, Option.bind_eq_bind, Option.bind_some, Option.pure_def, hexec, pure_bind]
    rw [List.map_cons, evalSources, hsource, pure_bind, hrest]

/-! ### The call of an installed function -/

section Call
variable (js : JsJson) (toText : JsValue → String)
  (inherited : String → Option (Value Json Native))

/-- A call of a shim, from the text of its arguments on. -/
def askShim (key argsJson : String) : Run JsValue := do
  let raw ← askDispatch js key argsJson
  Asking.lift (outcome (parseRaw js toText raw))

/-- The JSON value that a shim sends for its argument: nothing and `null` stand for an empty
object. -/
def Sends (h : JsHeap) (v : Value Json Native) (j : Json) : Prop :=
  if v.nullish then j = .object [] else toJson h h.next v = some j

theorem sends_ofJs (h : JsHeap) (args : JsValue) : Sends h (ofJs args) (shimArgs args) := by
  cases args with
  | undefined => rfl
  | json j => cases j <;> simp [Sends, ofJs, shimArgs, Value.nullish, toJson]

variable {inherited} in
theorem visible_shimHost (hroot : inherited "Sapphillon" = none) :
    Visible (shimHost js toText inherited) where
  root := ⟨by decide, hroot⟩
  visible := by
    change ∀ x ∈ globalNames, x ∉ pluginNames
    decide

theorem toJson_empty (h : JsHeap) (n : Nat) :
    toJson (h.alloc ⟨[], none⟩) (n + 1) (.ref h.next) = some (.object []) := by
  simp [toJson, ownKeys, Heap.alloc, Heap.code]

variable {inherited} (hjson : inherited "toJSON" = none)
include hjson

/-- The argument of the inner call, as `JSON.stringify` gets it. -/
theorem eval_args {names : List (String × Option (Value Json Native))} {v : Value Json Native}
    {j : Json} (hargs : names.lookup "args" = some (some v)) (hsends : Sends h v j) (n : Nat) :
    ∃ v' h', evalExpr (shimHost js toText inherited) (n + 2) (some names)
        (.coalesce (.name "args") (.object [])) h = pure (v', h') ∧
      stringifyValue js inherited h' v' = .ok (js.stringify j) ∧ h.Extends h' := by
  rw [eval_coalesce (denotes_local hargs) (by omega)]
  -- Nothing and `null` are replaced by a new object, every other value stays.
  by_cases hnullish : v.nullish = true
  · refine ⟨.ref h.next, h.alloc ⟨[], none⟩, by rw [if_pos hnullish, eval_object], ?_,
      Heap.extends_alloc _ _⟩
    rw [Sends, if_pos hnullish] at hsends
    simp [stringifyValue, hjson, hsends, toJson_empty]
  · refine ⟨v, h, by rw [if_neg hnullish], ?_, Heap.extends_refl _⟩
    rw [Sends, if_neg hnullish] at hsends
    simp [stringifyValue, hjson, hsends]

/-- The argument of the dispatch: `JSON.stringify(args ?? {})`. -/
theorem eval_stringify {names : List (String × Option (Value Json Native))} {v : Value Json Native}
    {j : Json} (hhost : Visible (shimHost js toText inherited)) (hscope : Unshadowed (some names))
    (hargs : names.lookup "args" = some (some v)) (hsends : Sends h v j) (hready : Ready h)
    (n : Nat) :
    ∃ h', evalExpr (shimHost js toText inherited) (n + 4) (some names)
        (.call (.member (.name "JSON") "stringify") [.coalesce (.name "args") (.object [])]) h =
          pure (.string (js.stringify j), h') ∧ h.Extends h' := by
  obtain ⟨v', h', heval, htext, hext⟩ := eval_args js toText hjson hargs hsends n
  refine ⟨h', ?_, hext⟩
  have hf : Denotes (shimHost js toText inherited) (some names) h 2
      (.member (.name "JSON") "stringify") (.native .stringify) :=
    denotes_member (denotes_globalName hhost hscope (by decide) hready.json)
      (getProp_own (by decide) (hready.code _ (by decide)) hready.stringify)
  rw [eval_call hf (by omega), evalArgs_cons, heval, pure_bind, evalArgs_nil, pure_bind, pure_bind]
  simp only [applyValue_native, shimHost, callNative, htext, Asking.lift_ok, pure_bind]

omit hjson

/-- `JSON.parse(raw)`. -/
theorem eval_parse {names : List (String × Option (Value Json Native))} {raw : JsValue}
    (hhost : Visible (shimHost js toText inherited)) (hscope : Unshadowed (some names))
    (hraw : names.lookup "raw" = some (some (ofJs raw))) (hready : Ready h) (n : Nat) :
    evalExpr (shimHost js toText inherited) (n + 3) (some names)
        (.call (.member (.name "JSON") "parse") [.name "raw"]) h =
      Asking.lift (outcome (parseRaw js toText raw)) >>= fun v => pure (ofJs v, h) := by
  have hf : Denotes (shimHost js toText inherited) (some names) h 2
      (.member (.name "JSON") "parse") (.native .parse) :=
    denotes_member (denotes_globalName hhost hscope (by decide) hready.json)
      (getProp_own (by decide) (hready.code _ (by decide)) hready.parse)
  rw [eval_call hf (by omega), evalArgs_cons, denotes_local hraw _ (by omega), pure_bind,
    evalArgs_nil, pure_bind, pure_bind]
  simp only [applyValue_native, shimHost, callNative, toJs?_ofJs]

include hjson

/-- A call of the installed function is the call of a shim, and changes nothing in use. -/
theorem apply_shimCode (hroot : inherited "Sapphillon" = none) (hready : Ready h) {a : Nat}
    {pkg func : String} (hcode : h.code a = some (shimCode pkg func)) {v : Value Json Native}
    {j : Json} (hsends : Sends h v j) {n : Nat} (hn : 9 ≤ n) :
    ∃ h', applyValue (shimHost js toText inherited) n (.ref a) [v] h =
        (askShim js toText (opKey pkg func) (js.stringify j) >>= fun v => pure (ofJs v, h')) ∧
      h.Extends h' := by
  obtain ⟨n, rfl⟩ : ∃ m, n = m + 9 := ⟨n - 9, by omega⟩
  have hhost := visible_shimHost js toText hroot
  have hscope : Unshadowed (some (enter (shimCode pkg func) [v])) := by
    change ∀ x ∈ globalNames, List.lookup x [("raw", none), ("args", some v)] = none
    simp [globalNames]
  obtain ⟨h', hstringify, hext⟩ := eval_stringify js toText hjson hhost hscope rfl hsends hready n
  refine ⟨h', ?_, hext⟩
  have hdispatch : Denotes (shimHost js toText inherited) (some (enter (shimCode pkg func) [v])) h 1
      (.name "__sapphillon_dispatch") (.native .dispatch) :=
    denotes_globalName hhost hscope (by decide) hready.dispatch
  have hbody : (shimCode pkg func).body = shimBody (opKey pkg func) := rfl
  rw [apply_function hcode, hbody, shimBody, exec_const, eval_call hdispatch (by omega),
    evalArgs_cons, denotes_string (opKey pkg func) _ (by omega), pure_bind, evalArgs_cons, hstringify,
    pure_bind, evalArgs_nil, pure_bind, pure_bind, pure_bind]
  have happly : applyValue (shimHost js toText inherited) (n + 6) (.native .dispatch)
      [.string (opKey pkg func), .string (js.stringify j)] h' =
      askDispatch js (opKey pkg func) (js.stringify j) >>= fun v => pure (ofJs v, h') := rfl
  rw [happly, askShim, bind_assoc, bind_assoc, bind_assoc]
  refine bind_congr fun raw => ?_
  have hscope' : Unshadowed (some (("raw", some (ofJs raw)) :: enter (shimCode pkg func) [v])) := by
    change ∀ x ∈ globalNames,
      List.lookup x [("raw", some (ofJs raw)), ("raw", none), ("args", some v)] = none
    simp [globalNames]
  rw [pure_bind, exec_ret, eval_parse js toText hhost hscope' rfl (hready.congr hext) (n + 3)]
  simp

end Call

end Sapphillon.ShimRealm
