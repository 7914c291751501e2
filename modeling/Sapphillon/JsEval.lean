import Sapphillon.Asking
import Sapphillon.JsSyntax
import Mathlib.Logic.Function.Basic

/-! The meaning of the fragment: objects in a heap, closures, and functions of the host, which
may ask the surroundings. Values the host makes are passed on as they are. What the fragment
does not cover stops with an outcome of its own. -/
namespace Sapphillon.JsEval
open JsSyntax

variable {δ ν ε : Type} {Q : Type} {R : Q → Type}

/-- A hidden value is one whose use is outside the fragment; it is neither `undefined` nor
`null`. -/
inductive Value (δ ν : Type) where
  | undefined
  | null
  | string (s : String)
  | data (d : δ)
  | ref (address : Nat)
  | native (f : ν)
  | hidden

/-- The names of a function body, without a value up to their declaration; the top level of a
source declares none. -/
abbrev Scope (δ ν : Type) := Option (List (String × Option (Value δ ν)))

/-- Functions are made at the top level only, so there is nothing to close over. -/
structure Code where
  params : List String
  body : List Stmt

/-- An ordinary object with its own properties, the latest first; a function has code. -/
structure Obj (δ ν : Type) where
  props : List (String × Value δ ν)
  code : Option Code

/-- The objects below `next` are in use. -/
structure Heap (δ ν : Type) where
  objs : Nat → Obj δ ν
  next : Nat

/-- How an evaluation stops: in the host, with a `TypeError` or `ReferenceError`, or outside the
fragment. -/
inductive Stop (ε : Type) where
  | host (e : ε)
  | error (msg : String)
  | outside

/-- The world around a program: what ordinary objects inherit, the names that the code around
`eval` declares, and the functions of the host. -/
structure Host (δ ν ε : Type) {Q : Type} (R : Q → Type) where
  inherited : String → Option (Value δ ν)
  surrounding : List String
  native : ν → List (Value δ ν) → Heap δ ν → Asking R (Stop ε) (Value δ ν × Heap δ ν)

/-! ### The heap -/

namespace Heap

def own (h : Heap δ ν) (a : Nat) (key : String) : Option (Value δ ν) :=
  (h.objs a).props.lookup key

def code (h : Heap δ ν) (a : Nat) : Option Code := (h.objs a).code

def set (h : Heap δ ν) (a : Nat) (key : String) (v : Value δ ν) : Heap δ ν :=
  { h with objs := Function.update h.objs a { h.objs a with props := (key, v) :: (h.objs a).props } }

/-- The heap with a new object at its next address. -/
def alloc (h : Heap δ ν) (o : Obj δ ν) : Heap δ ν :=
  { objs := Function.update h.objs h.next o, next := h.next + 1 }

variable (h : Heap δ ν) (a b : Nat) (key : String) (v : Value δ ν) (o : Obj δ ν)

@[simp] theorem next_set : (h.set a key v).next = h.next := rfl

@[simp] theorem next_alloc : (h.alloc o).next = h.next + 1 := rfl

@[simp] theorem own_set_same : (h.set a key v).own a key = some v := by simp [own, set]

theorem own_set_key {key' : String} (hk : key' ≠ key) :
    (h.set a key v).own a key' = h.own a key' := by
  have hbeq : (key' == key) = false := by simpa using hk
  simp [own, set, List.lookup_cons, hbeq]

theorem own_set_other {b : Nat} (hb : b ≠ a) (key' : String) :
    (h.set a key v).own b key' = h.own b key' := by
  simp [own, set, Function.update_of_ne hb]

/-- A property that is written with its own value stays as it is. -/
theorem own_set_self (hown : h.own a key = some v) (b : Nat) (key' : String) :
    (h.set a key v).own b key' = h.own b key' := by
  by_cases hb : b = a
  · obtain rfl := hb
    by_cases hk : key' = key
    · rw [hk, own_set_same, hown]
    · exact own_set_key h b key v hk
  · exact own_set_other h a key v hb key'

@[simp] theorem code_set (b : Nat) : (h.set a key v).code b = h.code b := by
  by_cases hb : b = a
  · rw [hb]
    simp [code, set]
  · simp [code, set, Function.update_of_ne hb]

theorem own_alloc {b : Nat} (hb : b < h.next) (key' : String) :
    (h.alloc o).own b key' = h.own b key' := by
  simp [own, alloc, Function.update_of_ne (Nat.ne_of_lt hb)]

theorem code_alloc {b : Nat} (hb : b < h.next) : (h.alloc o).code b = h.code b := by
  simp [code, alloc, Function.update_of_ne (Nat.ne_of_lt hb)]

@[simp] theorem own_alloc_new : (h.alloc o).own h.next key = o.props.lookup key := by
  simp [own, alloc]

@[simp] theorem code_alloc_new : (h.alloc o).code h.next = o.code := by simp [code, alloc]

/-- An own property, or a new empty object. -/
def orNew (h : Heap δ ν) (a : Nat) (key : String) : Value δ ν × Heap δ ν :=
  match h.own a key with
  | some v => (v, h)
  | none => (.ref h.next, h.alloc ⟨[], none⟩)

/-- `o[key] = o[key] ?? {}` on an own property. -/
def fill (h : Heap δ ν) (a : Nat) (key : String) : Heap δ ν :=
  (h.orNew a key).2.set a key (h.orNew a key).1

theorem next_fill : h.next ≤ (h.fill a key).next := by
  cases hown : h.own a key <;> simp [fill, orNew, hown]

theorem fill_some (hown : h.own a key = some v) : h.fill a key = h.set a key v := by
  simp [fill, orNew, hown]

theorem fill_none (hown : h.own a key = none) :
    h.fill a key = (h.alloc ⟨[], none⟩).set a key (.ref h.next) := by
  simp [fill, orNew, hown]

/-- Any other property of an object in use stays. -/
theorem own_fill {b : Nat} {key' : String} (hb : b < h.next) (hne : b = a → key' ≠ key) :
    (h.fill a key).own b key' = h.own b key' := by
  have hset (h₁ : Heap δ ν) (v : Value δ ν) : (h₁.set a key v).own b key' = h₁.own b key' := by
    by_cases hba : b = a
    · rw [hba]
      exact own_set_key h₁ a key v (hne hba)
    · exact own_set_other h₁ a key v hba key'
  cases hown : h.own a key with
  | some v => rw [fill_some _ _ _ _ hown, hset]
  | none => rw [fill_none _ _ _ hown, hset, own_alloc _ _ hb]

theorem code_fill {b : Nat} (hb : b < h.next) : (h.fill a key).code b = h.code b := by
  cases hown : h.own a key with
  | some v => rw [fill_some _ _ _ _ hown, code_set]
  | none => rw [fill_none _ _ _ hown, code_set, code_alloc _ _ hb]

/-- What can be read of the objects in use is the same. -/
structure Extends (h h' : Heap δ ν) : Prop where
  next : h.next ≤ h'.next
  code : ∀ b < h.next, h'.code b = h.code b
  own : ∀ b < h.next, ∀ key, h'.own b key = h.own b key

theorem extends_refl : h.Extends h := ⟨Nat.le_refl _, fun _ _ => rfl, fun _ _ _ => rfl⟩

variable {h} in
theorem Extends.trans {h' h'' : Heap δ ν} (hext : h.Extends h') (hext' : h'.Extends h'') :
    h.Extends h'' where
  next := Nat.le_trans hext.next hext'.next
  code b hb := (hext'.code b (Nat.lt_of_lt_of_le hb hext.next)).trans (hext.code b hb)
  own b hb key := (hext'.own b (Nat.lt_of_lt_of_le hb hext.next) key).trans (hext.own b hb key)

theorem extends_alloc : h.Extends (h.alloc o) :=
  ⟨Nat.le_succ _, fun _ hb => code_alloc _ _ hb, fun _ hb _ => own_alloc _ _ hb _⟩

/-- Nothing changes where the property is there already. -/
theorem extends_fill (hown : h.own a key = some v) : h.Extends (h.fill a key) := by
  refine ⟨next_fill _ _ _, fun _ hb => code_fill _ _ _ hb, fun b _ key' => ?_⟩
  rw [fill_some _ _ _ _ hown, own_set_self _ _ _ _ hown]

end Heap

/-! ### Properties -/

def Value.nullish : Value δ ν → Bool
  | .undefined | .null => true
  | _ => false

/-- The property of a value. Functions and the accessor `__proto__` are left out. -/
def getProp (host : Host δ ν ε R) (h : Heap δ ν) (v : Value δ ν) (key : String) :
    Except (Stop ε) (Value δ ν) :=
  match v with
  | .undefined | .null => .error (.error ("cannot read property '" ++ key ++ "'"))
  | .ref a =>
    if key = "__proto__" ∨ (h.code a).isSome then .error .outside
    else .ok (((h.own a key).or (host.inherited key)).getD .undefined)
  | _ => .error .outside

def setProp (h : Heap δ ν) (v : Value δ ν) (key : String) (value : Value δ ν) :
    Except (Stop ε) (Heap δ ν) :=
  match v with
  | .undefined | .null => .error (.error ("cannot set property '" ++ key ++ "'"))
  | .ref a =>
    if key = "__proto__" ∨ (h.code a).isSome then .error .outside else .ok (h.set a key value)
  | _ => .error .outside

/-- The key an index stands for; only strings are read as keys. -/
def toKey : Value δ ν → Except (Stop ε) String
  | .string s => .ok s
  | _ => .error .outside

/-- The global object. -/
def globalAddress : Nat := 0

/-- A name of the scope, or else a property of the global object. The names around `eval` are
left out. -/
def resolve (host : Host δ ν ε R) (scope : Scope δ ν) (x : String) (h : Heap δ ν) :
    Except (Stop ε) (Value δ ν) :=
  match (scope.getD []).lookup x with
  | some (some v) => .ok v
  | some none => .error (.error (x ++ " is not initialized"))
  | none =>
    if x ∈ host.surrounding then .error .outside
    else match (h.own globalAddress x).or (host.inherited x) with
    | some v => .ok v
    | none => .error (.error (x ++ " is not defined"))

/-- The parameters with the values given for them. -/
def bindParams : List String → List (Value δ ν) → List (String × Option (Value δ ν))
  | [], _ => []
  | x :: xs, [] => (x, some .undefined) :: bindParams xs []
  | x :: xs, v :: vs => (x, some v) :: bindParams xs vs

/-- The names of a body at its start. -/
def enter (c : Code) (vs : List (Value δ ν)) : List (String × Option (Value δ ν)) :=
  (declared c.body).map (·, none) ++ bindParams c.params vs

/-! ### Evaluation -/

section Eval
variable (host : Host δ ν ε R)

mutual
def evalExpr : Nat → Scope δ ν → Expr → Heap δ ν → Asking R (Stop ε) (Value δ ν × Heap δ ν)
  | 0, _, _, _ => Asking.stop .outside
  | n + 1, scope, e, h =>
    match e with
    | .name x => do
      let v ← Asking.lift (resolve host scope x h)
      return (v, h)
    | .string s => return (.string s, h)
    | .object fields => do
      let (props, h) ← evalFields n scope fields [] h
      return (.ref h.next, h.alloc ⟨props, none⟩)
    | .function params body =>
      match scope with
      | none => return (.ref h.next, h.alloc ⟨[], some ⟨params, body⟩⟩)
      | some _ => Asking.stop .outside
    | .member e key => do
      let (v, h) ← evalExpr n scope e h
      let v ← Asking.lift (getProp host h v key)
      return (v, h)
    | .index e k => do
      let (v, h) ← evalExpr n scope e h
      let (k, h) ← evalExpr n scope k h
      let key ← Asking.lift (toKey k)
      let v ← Asking.lift (getProp host h v key)
      return (v, h)
    | .coalesce e e' => do
      let (v, h) ← evalExpr n scope e h
      if v.nullish then evalExpr n scope e' h else return (v, h)
    | .call f args => do
      let (f, h) ← evalExpr n scope f h
      let (vs, h) ← evalArgs n scope args h
      applyValue n f vs h

/-- The fields of an object literal, in front of those before them. -/
def evalFields : Nat → Scope δ ν → List (String × Expr) → List (String × Value δ ν) → Heap δ ν →
    Asking R (Stop ε) (List (String × Value δ ν) × Heap δ ν)
  | _, _, [], props, h => return (props, h)
  | 0, _, _ :: _, _, _ => Asking.stop .outside
  | n + 1, scope, (key, e) :: fields, props, h => do
    let (v, h) ← evalExpr n scope e h
    evalFields n scope fields ((key, v) :: props) h

def evalArgs : Nat → Scope δ ν → List Expr → Heap δ ν →
    Asking R (Stop ε) (List (Value δ ν) × Heap δ ν)
  | 0, _, _, _ => Asking.stop .outside
  | _ + 1, _, [], h => return ([], h)
  | n + 1, scope, e :: es, h => do
    let (v, h) ← evalExpr n scope e h
    let (vs, h) ← evalArgs n scope es h
    return (v :: vs, h)

/-- A call of a value. -/
def applyValue : Nat → Value δ ν → List (Value δ ν) → Heap δ ν →
    Asking R (Stop ε) (Value δ ν × Heap δ ν)
  | 0, _, _, _ => Asking.stop .outside
  | n + 1, f, vs, h =>
    match f with
    | .native f => host.native f vs h
    | .ref a =>
      match h.code a with
      | some c => do
        let (v, h) ← execStmts n (some (enter c vs)) c.body h
        return (v.getD .undefined, h)
      | none => Asking.stop (.error "not a function")
    | .data _ | .hidden => Asking.stop .outside
    | _ => Asking.stop (.error "not a function")

/-- Statements one after the other, up to the first value that is returned. -/
def execStmts : Nat → Scope δ ν → List Stmt → Heap δ ν →
    Asking R (Stop ε) (Option (Value δ ν) × Heap δ ν)
  | 0, _, _, _ => Asking.stop .outside
  | _ + 1, _, [], h => return (none, h)
  | n + 1, scope, s :: rest, h =>
    match s with
    | .const x e =>
      match scope with
      | none => Asking.stop .outside
      | some names => do
        let (v, h) ← evalExpr n scope e h
        execStmts n (some ((x, some v) :: names)) rest h
    | .ret e =>
      match scope with
      | none => Asking.stop .outside
      | some _ => do
        let (v, h) ← evalExpr n scope e h
        return (some v, h)
    | .expr e => do
      let (_, h) ← evalExpr n scope e h
      execStmts n scope rest h
    | .assign (.member e key) value => do
      let (target, h) ← evalExpr n scope e h
      let (v, h) ← evalExpr n scope value h
      let h ← Asking.lift (setProp h target key v)
      execStmts n scope rest h
    | .assign (.index e k) value => do
      let (target, h) ← evalExpr n scope e h
      let (k, h) ← evalExpr n scope k h
      let key ← Asking.lift (toKey k)
      let (v, h) ← evalExpr n scope value h
      let h ← Asking.lift (setProp h target key v)
      execStmts n scope rest h
    | .assign _ _ => Asking.stop .outside
end

/-- `eval` of a source outside any scope, with so many steps. -/
def evalSource (strict : Bool) (n : Nat) (source : String) (h : Heap δ ν) :
    Asking R (Stop ε) (Heap δ ν) :=
  match parse strict source.toList with
  | none => Asking.stop .outside
  | some body => do
    let r ← execStmts host n none body h
    return r.2

/-- Sources one after the other. -/
def evalSources (strict : Bool) (n : Nat) : List String → Heap δ ν → Asking R (Stop ε) (Heap δ ν)
  | [], h => return h
  | source :: sources, h => do
    let h ← evalSource host strict n source h
    evalSources strict n sources h

end Eval

section Rules
variable {host : Host δ ν ε R} {scope : Scope δ ν} {h : Heap δ ν} {e : Expr} {a k : Nat}
  {v : Value δ ν} {key : String}

/-! ### One equation for each branch -/

theorem evalExpr_name (x : String) (n : Nat) :
    evalExpr host (n + 1) scope (.name x) h =
      Asking.lift (resolve host scope x h) >>= fun v => pure (v, h) := rfl

theorem evalExpr_string (s : String) (n : Nat) :
    evalExpr host (n + 1) scope (.string s) h = pure (.string s, h) := rfl

theorem evalExpr_object (fields : List (String × Expr)) (n : Nat) :
    evalExpr host (n + 1) scope (.object fields) h =
      evalFields host n scope fields [] h >>= fun r =>
        pure (.ref r.2.next, r.2.alloc ⟨r.1, none⟩) := rfl

theorem evalExpr_member (n : Nat) :
    evalExpr host (n + 1) scope (.member e key) h = evalExpr host n scope e h >>= fun r =>
      Asking.lift (getProp host r.2 r.1 key) >>= fun v => pure (v, r.2) := rfl

theorem evalExpr_index (e' : Expr) (n : Nat) :
    evalExpr host (n + 1) scope (.index e e') h = evalExpr host n scope e h >>= fun r =>
      evalExpr host n scope e' r.2 >>= fun r' => Asking.lift (toKey r'.1) >>= fun key =>
        Asking.lift (getProp host r'.2 r.1 key) >>= fun v => pure (v, r'.2) := rfl

theorem evalExpr_coalesce (e' : Expr) (n : Nat) :
    evalExpr host (n + 1) scope (.coalesce e e') h = evalExpr host n scope e h >>= fun r =>
      if r.1.nullish then evalExpr host n scope e' r.2 else pure (r.1, r.2) := rfl

theorem evalExpr_call (args : List Expr) (n : Nat) :
    evalExpr host (n + 1) scope (.call e args) h = evalExpr host n scope e h >>= fun r =>
      evalArgs host n scope args r.2 >>= fun r' => applyValue host n r.1 r'.1 r'.2 := rfl

theorem evalFields_nil (props : List (String × Value δ ν)) (n : Nat) :
    evalFields host n scope [] props h = pure (props, h) := by
  cases n <;> rfl

theorem evalFields_cons (fields : List (String × Expr)) (props : List (String × Value δ ν))
    (n : Nat) :
    evalFields host (n + 1) scope ((key, e) :: fields) props h =
      evalExpr host n scope e h >>= fun r =>
        evalFields host n scope fields ((key, r.1) :: props) r.2 := rfl

theorem evalArgs_nil (n : Nat) : evalArgs host (n + 1) scope [] h = pure ([], h) := rfl

theorem evalArgs_cons (es : List Expr) (n : Nat) :
    evalArgs host (n + 1) scope (e :: es) h = evalExpr host n scope e h >>= fun r =>
      evalArgs host n scope es r.2 >>= fun r' => pure (r.1 :: r'.1, r'.2) := rfl

theorem applyValue_native (f : ν) (vs : List (Value δ ν)) (n : Nat) :
    applyValue host (n + 1) (.native f) vs h = host.native f vs h := rfl

theorem applyValue_ref (vs : List (Value δ ν)) (n : Nat) :
    applyValue host (n + 1) (.ref a) vs h =
      match h.code a with
      | some c => execStmts host n (some (enter c vs)) c.body h >>= fun r =>
          pure (r.1.getD .undefined, r.2)
      | none => Asking.stop (.error "not a function") := rfl

theorem exec_ret (names : List (String × Option (Value δ ν))) (rest : List Stmt) (n : Nat) :
    execStmts host (n + 1) (some names) (.ret e :: rest) h =
      evalExpr host n (some names) e h >>= fun r => pure (some r.1, r.2) := rfl

theorem exec_const (names : List (String × Option (Value δ ν))) (x : String) (rest : List Stmt)
    (n : Nat) :
    execStmts host (n + 1) (some names) (.const x e :: rest) h =
      evalExpr host n (some names) e h >>= fun r =>
        execStmts host n (some ((x, some r.1) :: names)) rest r.2 := rfl

theorem exec_expr (rest : List Stmt) (n : Nat) :
    execStmts host (n + 1) scope (.expr e :: rest) h =
      evalExpr host n scope e h >>= fun r => execStmts host n scope rest r.2 := rfl

theorem exec_member (value : Expr) (rest : List Stmt) (n : Nat) :
    execStmts host (n + 1) scope (.assign (.member e key) value :: rest) h =
      evalExpr host n scope e h >>= fun r => evalExpr host n scope value r.2 >>= fun r' =>
        Asking.lift (setProp r'.2 r.1 key r'.1) >>= fun h => execStmts host n scope rest h := rfl

theorem exec_index (e' value : Expr) (rest : List Stmt) (n : Nat) :
    execStmts host (n + 1) scope (.assign (.index e e') value :: rest) h =
      evalExpr host n scope e h >>= fun r => evalExpr host n scope e' r.2 >>= fun r' =>
        Asking.lift (toKey r'.1) >>= fun key => evalExpr host n scope value r'.2 >>= fun r'' =>
          Asking.lift (setProp r''.2 r.1 key r''.1) >>= fun h =>
            execStmts host n scope rest h := rfl

/-! ### Expressions that only read -/

/-- With enough steps an expression has a value and leaves the heap as it is. -/
def Denotes (host : Host δ ν ε R) (scope : Scope δ ν) (h : Heap δ ν) (k : Nat) (e : Expr)
    (v : Value δ ν) : Prop :=
  ∀ m, k ≤ m → evalExpr host m scope e h = pure (v, h)

theorem Denotes.mono {k' : Nat} (he : Denotes host scope h k e v) (hk : k ≤ k') :
    Denotes host scope h k' e v := fun m hm => he m (Nat.le_trans hk hm)

theorem denotes_global {x : String} (hscope : (scope.getD []).lookup x = none)
    (hsurrounding : x ∉ host.surrounding) (hown : h.own globalAddress x = some v) :
    Denotes host scope h 1 (.name x) v := by
  intro m hm
  obtain ⟨n, rfl⟩ : ∃ n, m = n + 1 := ⟨m - 1, by omega⟩
  simp [evalExpr_name, resolve, hscope, hsurrounding, hown]

theorem denotes_local {x : String} (hscope : (scope.getD []).lookup x = some (some v)) :
    Denotes host scope h 1 (.name x) v := by
  intro m hm
  obtain ⟨n, rfl⟩ : ∃ n, m = n + 1 := ⟨m - 1, by omega⟩
  simp [evalExpr_name, resolve, hscope]

theorem denotes_string (s : String) : Denotes host scope h 1 (.string s) (.string s) := by
  intro m hm
  obtain ⟨n, rfl⟩ : ∃ n, m = n + 1 := ⟨m - 1, by omega⟩
  exact evalExpr_string s n

theorem denotes_member (he : Denotes host scope h k e (.ref a))
    (hget : getProp host h (.ref a) key = .ok v) : Denotes host scope h (k + 1) (.member e key) v := by
  intro m hm
  obtain ⟨n, rfl⟩ : ∃ n, m = n + 1 := ⟨m - 1, by omega⟩
  simp [evalExpr_member, he n (by omega), hget]

theorem denotes_index (hk : 1 ≤ k) (he : Denotes host scope h k e (.ref a))
    (hget : getProp host h (.ref a) key = .ok v) :
    Denotes host scope h (k + 1) (.index e (.string key)) v := by
  intro m hm
  obtain ⟨n, rfl⟩ : ∃ n, m = n + 1 := ⟨m - 1, by omega⟩
  simp [evalExpr_index, he n (by omega), denotes_string key n (by omega), toKey, hget]

theorem getProp_own (hkey : key ≠ "__proto__") (hcode : h.code a = none)
    (hown : h.own a key = some v) : getProp host h (.ref a) key = .ok v := by
  simp [getProp, hkey, hcode, hown]

/-- A property that is not inherited is an own one or undefined. -/
theorem getProp_notInherited (hkey : key ≠ "__proto__") (hcode : h.code a = none)
    (hinherited : host.inherited key = none) :
    getProp host h (.ref a) key = .ok ((h.own a key).getD .undefined) := by
  simp [getProp, hkey, hcode, hinherited]

/-! ### Expressions that throw -/

/-- With enough steps an expression stops. -/
def Fails (host : Host δ ν ε R) (scope : Scope δ ν) (h : Heap δ ν) (k : Nat) (e : Expr)
    (stop : Stop ε) : Prop :=
  ∀ m, k ≤ m → evalExpr host m scope e h = Asking.stop stop

variable {stop : Stop ε}

/-- A name that stands for nothing. -/
theorem fails_undefinedName {x : String} (hscope : (scope.getD []).lookup x = none)
    (hsurrounding : x ∉ host.surrounding) (hown : h.own globalAddress x = none)
    (hinherited : host.inherited x = none) :
    Fails host scope h 1 (.name x) (.error (x ++ " is not defined")) := by
  intro m hm
  obtain ⟨n, rfl⟩ : ∃ n, m = n + 1 := ⟨m - 1, by omega⟩
  simp [evalExpr_name, resolve, hscope, hsurrounding, hown, hinherited]

theorem getProp_nullish (hv : v.nullish = true) :
    getProp host h v key = .error (.error ("cannot read property '" ++ key ++ "'")) := by
  cases v <;> first | rfl | cases hv

theorem fails_member_nullish (he : Denotes host scope h k e v) (hv : v.nullish = true) :
    Fails host scope h (k + 1) (.member e key) (.error ("cannot read property '" ++ key ++ "'")) := by
  intro m hm
  obtain ⟨n, rfl⟩ : ∃ n, m = n + 1 := ⟨m - 1, by omega⟩
  simp [evalExpr_member, he n (by omega), getProp_nullish hv]

theorem fails_index_nullish (hk : 1 ≤ k) (he : Denotes host scope h k e v)
    (hv : v.nullish = true) :
    Fails host scope h (k + 1) (.index e (.string key))
      (.error ("cannot read property '" ++ key ++ "'")) := by
  intro m hm
  obtain ⟨n, rfl⟩ : ∃ n, m = n + 1 := ⟨m - 1, by omega⟩
  simp [evalExpr_index, he n (by omega), denotes_string key n (by omega), toKey, getProp_nullish hv]

theorem fails_member (he : Fails host scope h k e stop) :
    Fails host scope h (k + 1) (.member e key) stop := by
  intro m hm
  obtain ⟨n, rfl⟩ : ∃ n, m = n + 1 := ⟨m - 1, by omega⟩
  simp [evalExpr_member, he n (by omega)]

theorem fails_index {e' : Expr} (he : Fails host scope h k e stop) :
    Fails host scope h (k + 1) (.index e e') stop := by
  intro m hm
  obtain ⟨n, rfl⟩ : ∃ n, m = n + 1 := ⟨m - 1, by omega⟩
  simp [evalExpr_index, he n (by omega)]

theorem fails_call {args : List Expr} (he : Fails host scope h k e stop) :
    Fails host scope h (k + 1) (.call e args) stop := by
  intro m hm
  obtain ⟨n, rfl⟩ : ∃ n, m = n + 1 := ⟨m - 1, by omega⟩
  simp [evalExpr_call, he n (by omega)]

/-! ### Calls -/

/-- The function is read first, then the arguments. -/
theorem eval_call {f : Expr} {args : List Expr} {m : Nat} (hf : Denotes host scope h k f v)
    (hm : k ≤ m) :
    evalExpr host (m + 1) scope (.call f args) h =
      evalArgs host m scope args h >>= fun r => applyValue host m v r.1 r.2 := by
  simp [evalExpr_call, hf m hm]

theorem eval_call_one {f : Expr} {m : Nat} (hf : Denotes host scope h k f v) (hm : k ≤ m + 2) :
    evalExpr host (m + 3) scope (.call f [e]) h =
      evalExpr host (m + 1) scope e h >>= fun r => applyValue host (m + 2) v [r.1] r.2 := by
  simp only [eval_call hf hm, evalArgs_cons, evalArgs_nil, bind_assoc, pure_bind]

theorem apply_function {c : Code} (hcode : h.code a = some c) (vs : List (Value δ ν)) (m : Nat) :
    applyValue host (m + 1) (.ref a) vs h =
      execStmts host m (some (enter c vs)) c.body h >>= fun r =>
        pure (r.1.getD .undefined, r.2) := by
  simp only [applyValue_ref, hcode]

/-! ### Assignments -/

variable {h' : Heap δ ν} {value : Expr} {rest : List Stmt} {m : Nat}

theorem exec_assign_member (he : Denotes host none h k e (.ref a)) (hm : k ≤ m)
    (hvalue : evalExpr host m none value h = pure (v, h')) (hkey : key ≠ "__proto__")
    (hcode : h'.code a = none) :
    execStmts host (m + 1) none (.assign (.member e key) value :: rest) h =
      execStmts host m none rest (h'.set a key v) := by
  simp [exec_member, he m hm, hvalue, setProp, hkey, hcode]

theorem exec_assign_index (he : Denotes host none h k e (.ref a)) (hk : 1 ≤ k) (hm : k ≤ m)
    (hvalue : evalExpr host m none value h = pure (v, h')) (hkey : key ≠ "__proto__")
    (hcode : h'.code a = none) :
    execStmts host (m + 1) none (.assign (.index e (.string key)) value :: rest) h =
      execStmts host m none rest (h'.set a key v) := by
  simp [exec_index, he m hm, denotes_string key m (by omega), toKey, hvalue, setProp, hkey, hcode]

theorem eval_coalesce {e' : Expr} (he : Denotes host scope h k e v) (hm : k ≤ m) :
    evalExpr host (m + 1) scope (.coalesce e e') h =
      if v.nullish then evalExpr host m scope e' h else pure (v, h) := by
  simp [evalExpr_coalesce, he m hm]

theorem eval_object : evalExpr host (m + 1) scope (.object []) h =
    pure (.ref h.next, h.alloc ⟨[], none⟩) := by
  simp [evalExpr_object, evalFields_nil]

/-- `.. ?? {}` behind the reading of an own property. -/
theorem eval_orNew (hread : Denotes host none h k e ((h.own a key).getD .undefined))
    (hown : ∀ v, h.own a key = some v → v.nullish = false) (hm : k + 1 ≤ m) (hk : 1 ≤ k) :
    evalExpr host m none (.coalesce e (.object [])) h = pure (h.orNew a key) := by
  obtain ⟨n, rfl⟩ : ∃ n, m = n + 2 := ⟨m - 2, by omega⟩
  rw [eval_coalesce hread (by omega)]
  cases hprop : h.own a key with
  | none => simp [eval_object, Heap.orNew, hprop, Value.nullish]
  | some v => simp [hown v hprop, Heap.orNew, hprop]

theorem code_orNew {b : Nat} (hb : b < h.next) : (h.orNew a key).2.code b = h.code b := by
  cases hprop : h.own a key with
  | none => simp [Heap.orNew, hprop, Heap.code_alloc h _ hb]
  | some v => simp [Heap.orNew, hprop]

end Rules
end Sapphillon.JsEval
