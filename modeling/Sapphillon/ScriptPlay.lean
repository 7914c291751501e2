import Sapphillon.PluginRun
import Sapphillon.ScriptMeaning

/-! A script of calls, however it is spelled, played against the host: its expressions yield and
its statements put what they mean. -/
namespace Sapphillon.ScriptPlay
open JsSyntax JsEval JsEngine Plugin
open ShimRealm ScriptCalls PluginRun RemoteCall ScriptMeaning
open Sapphillon.Runtime Routing Workflow

/-! ### Spellings -/

/-- A literal object with ordinary keys, or a call with one argument, or with none in the place of
an empty object. -/
inductive Spells : CallExpr → Expr → Prop where
  | literal {fields : List (String × String)} (nodup : (fields.map Prod.fst).Nodup)
      (keys : ∀ key ∈ fields.map Prod.fst, isIndex key = false ∧ key ≠ "toJSON") :
      Spells (.literal fields) (.object (fields.map fun f => (f.1, .string f.2)))
  | call {pkg func : String} {arg : CallExpr} {f e : Expr} (hf : SpellsFunction pkg func f)
      (harg : Spells arg e) : Spells (.call pkg func arg) (.call f [e])
  | callEmpty {pkg func : String} {f : Expr} (hf : SpellsFunction pkg func f) :
      Spells (.call pkg func (.literal [])) (.call f [])

/-- A call of a console function, or an expression on its own. -/
inductive SpellsStmt : CallStmt → Stmt → Prop where
  | print {method : ConsoleMethod} {c : CallExpr} {f e : Expr}
      (hf : SpellsMember (.name "console") (methodName method) f) (he : Spells c e) :
      SpellsStmt (.print method c) (.expr (.call f [e]))
  | run {c : CallExpr} {e : Expr} (he : Spells c e) : SpellsStmt (.run c) (.expr e)

/-- Steps that are enough for the evaluation of an expression, of the statements of a script. -/
def exprSteps : CallExpr → Nat
  | .literal fields => fields.length + 2
  | .call _ _ arg => exprSteps arg + 12

def scriptSteps : List CallStmt → Nat
  | [] => 1
  | s :: rest => max (exprSteps s.expr + 4) (scriptSteps rest) + 1

/-! ### Object literals -/

variable {h : JsHeap} {fns : List (String × String)}

/-- The value stands for an object of these fields. -/
inductive Holds (h : JsHeap) (fields : List (String × Json)) : Value Json Native → Prop where
  | data : Holds h fields (.data (.object fields))
  | ref {a : Nat} (hjson : toJson h h.next (.ref a) = some (.object fields)) : Holds h fields (.ref a)

theorem Holds.sends {fields : List (String × Json)} {v : Value Json Native}
    (hv : Holds h fields v) : Sends h v (.object fields) := by
  cases hv with
  | data => simp [Sends, Value.nullish, toJson]
  | ref hjson => simpa [Sends, Value.nullish] using hjson

theorem Holds.formatValue {js : JsJson} {toText : JsValue → String}
    {inherited : String → Option (Value Json Native)} (hjson : inherited "toJSON" = none)
    {fields : List (String × Json)} {v : Value Json Native} (hv : Holds h fields v) :
    formatValue js toText inherited h v = .ok (js.stringify (.object fields)) := by
  cases hv with
  | data => simp [ShimRealm.formatValue, stringifyValue, hjson, toJson]
  | ref href => simp [ShimRealm.formatValue, stringifyValue, hjson, href]

/-- The properties of an object that was written with these texts. -/
def textProps (fields : List (String × String)) : List (String × Value Json Native) :=
  (fields.map fun f => (f.1, .string f.2)).reverse

theorem evalFields_texts {host : JsHost} {scope : Scope Json Native} (h : JsHeap)
    (fields : List (String × String)) (props : List (String × Value Json Native)) {n : Nat}
    (hn : fields.length + 1 ≤ n) :
    evalFields host n scope (fields.map fun f => (f.1, .string f.2)) props h =
      pure (textProps fields ++ props, h) := by
  induction fields generalizing props n with
  | nil => simp [evalFields_nil, textProps]
  | cons f fields ih =>
    simp only [List.length_cons] at hn
    obtain ⟨m, rfl⟩ : ∃ m, n = m + 1 := ⟨n - 1, by omega⟩
    rw [List.map_cons, evalFields_cons, denotes_string f.2 m (by omega), pure_bind]
    refine (ih ((f.1, .string f.2) :: props) (by omega)).trans ?_
    simp [textProps]

theorem lookup_textProps {fields : List (String × String)} (hnodup : (fields.map Prod.fst).Nodup)
    {f : String × String} (hf : f ∈ fields) : (textProps fields).lookup f.1 = some (.string f.2) := by
  obtain ⟨before, after, rfl⟩ := List.append_of_mem hf
  refine List.lookup_eq_some_iff.mpr ⟨(after.map fun f => (f.1, .string f.2)).reverse,
    (before.map fun f => (f.1, .string f.2)).reverse, by simp [textProps], fun q hq => ?_⟩
  obtain ⟨g, hg, rfl⟩ := List.mem_map.mp (List.mem_reverse.mp hq)
  have hne : f.1 ≠ g.1 := by
    rw [List.map_append, List.map_cons, List.nodup_append] at hnodup
    exact fun he => (List.nodup_cons.mp hnodup.2.1).1 (he ▸ List.mem_map_of_mem hg)
  simpa using hne

theorem mapM_eq_some_map {α β : Type} {l : List α} {f : α → Option β} {g : α → β}
    (h : ∀ a ∈ l, f a = some (g a)) : l.mapM f = some (l.map g) := by
  induction l with
  | nil => rfl
  | cons a l ih =>
    obtain ⟨ha, hl⟩ := List.forall_mem_cons.mp h
    rw [List.mapM_cons, ha, ih hl]
    rfl

/-- An object that was written with texts under different keys is read as these texts. -/
theorem toJson_textProps {fields : List (String × String)} (hnodup : (fields.map Prod.fst).Nodup)
    (hkeys : ∀ key ∈ fields.map Prod.fst, isIndex key = false ∧ key ≠ "toJSON") (h : JsHeap) :
    toJson (h.alloc ⟨textProps fields, none⟩) (h.next + 1) (.ref h.next) =
      some (.object (texts fields)) := by
  have hown : ownKeys (h.alloc ⟨textProps fields, none⟩) h.next = fields.map Prod.fst := by
    have hprops : (textProps fields).map Prod.fst = (fields.map Prod.fst).reverse := by
      simp [textProps, List.map_reverse, Function.comp_def]
    simp only [ownKeys, Heap.alloc, Function.update_self]
    rw [hprops, (List.nodup_reverse.mpr hnodup).dedup, List.reverse_reverse]
  have hany : (fields.map Prod.fst).any (fun key => isIndex key || key == "toJSON") = false := by
    simpa using hkeys
  have hmap : (fields.map Prod.fst).mapM (fun key =>
      ((h.alloc ⟨textProps fields, none⟩).own h.next key).bind fun v =>
        (toJson (h.alloc ⟨textProps fields, none⟩) h.next v).map (key, ·)) =
      some (texts fields) := by
    rw [List.mapM_map]
    refine mapM_eq_some_map fun f hf => ?_
    simp [lookup_textProps hnodup hf, toJson]
  rw [toJson, hown]
  simp only [Heap.code_alloc_new, hany, hmap]
  rfl

/-! ### Expressions -/

/-- A function of a package of the workflow, which its key leads to. -/
inductive Callable (w : CoreWorkflowCode) : String × String → Prop where
  | intro {p : CorePluginExternalPackage} {f : CorePluginExternalFunction}
      (hp : .external p ∈ w.pluginPackages) (hf : f ∈ p.functions) (separable : Separable p.id)
      (no_internal : NoInternal w.pluginPackages (opKey f.packageId f.name)) :
      Callable w (f.packageId, f.name)

/-- The functions that can be called are installed under names that can be read. -/
structure CallsInstalled (w : CoreWorkflowCode) (fns : List (String × String))
    (fn : String × String) : Prop where
  callable : Callable w fn
  installed : fn ∈ fns
  pkg_proto : fn.1 ≠ "__proto__"
  func_proto : fn.2 ≠ "__proto__"

/-- How the error of a remote call stops a script. -/
def thrown (msg : String) : Stop Completion := .host (.threwError (.json (.string msg)))

/-- The modules give values back that both languages have. -/
def SharedAnswers (world : World) (w : CoreWorkflowCode) (Shared : Json → Prop) : Prop :=
  ∀ time p func sent returns, remoteCall world time w.dispatchCtx p func sent = .ok returns →
    SharedFields Shared returns.args

section Expressions
variable {world : World} {js : JsJson} {toText : JsValue → String} {Shared : Json → Prop}
  {inherited : String → Option (Value Json Native)} {w : CoreWorkflowCode}

/-- What an evaluation from a heap plays as between two moments: it has an object of the fields
as its value and keeps what is in use, or it throws the error. -/
def PlaysAs (world : World) (w : CoreWorkflowCode) (Shared : Json → Prop)
    (x : Run (Value Json Native × JsHeap)) (h : JsHeap) (s s' : Moment) :
    Except String (List (String × Json)) → Prop
  | .ok fields => SharedFields Shared fields ∧ ∃ v h', Holds h' fields v ∧ h.Extends h' ∧
      play world.serde (w.dispatcher world) x s = (.ok (v, h'), s')
  | .error msg => play world.serde (w.dispatcher world) x s = (.error (.inl (thrown msg)), s')

/-- What comes behind a part that has a value plays from where that part ends. -/
theorem PlaysAs.after {x : Run (Value Json Native × JsHeap)} {v : Value Json Native} {h' : JsHeap}
    {s s₁ s' : Moment}
    (hplay : play world.serde (w.dispatcher world) x s = (.ok (v, h'), s₁)) (hext : h.Extends h')
    {f : Value Json Native × JsHeap → Run (Value Json Native × JsHeap)}
    {r : Except String (List (String × Json))}
    (hrest : PlaysAs world w Shared (f (v, h')) h' s₁ s' r) :
    PlaysAs world w Shared (x >>= f) h s s' r := by
  cases r with
  | ok fields =>
    obtain ⟨hshared, v', h'', hv, hext', hplay'⟩ := hrest
    exact ⟨hshared, v', h'', hv, hext.trans hext', (Asking.play_bind_ok hplay).trans hplay'⟩
  | error msg => exact (Asking.play_bind_ok hplay).trans hrest

/-- The call of an installed function whose argument has been evaluated is a remote call. -/
theorem playsAs_apply (hcarries : Carries world.serde js toText Shared)
    (hw : WellFormed w.pluginPackages) (hanswers : SharedAnswers world w Shared)
    (hroot : inherited "Sapphillon" = none) (hjson : inherited "toJSON" = none)
    {pkg func : String} {a : Nat} {v : Value Json Native} {fields : List (String × Json)}
    (hcallable : Callable w (pkg, func)) (hready : Ready h)
    (hcode : h.code a = some (shimCode pkg func)) (hsends : Sends h v (.object fields))
    (hfields : SharedFields Shared fields) {arg : CallExpr} {t₀ : Nat} {s : Moment}
    (harg : Yields world w t₀ arg s.time (.ok fields)) {n : Nat} (hn : 9 ≤ n) :
    ∃ r, Yields world w t₀ (.call pkg func arg) (s.time + 1) r ∧
      PlaysAs world w Shared (applyValue (shimHost js toText inherited) n (.ref a) [v] h) h s
        { s with time := s.time + 1 } r := by
  obtain ⟨h', happly, hext⟩ := apply_shimCode js toText hjson hroot hready hcode hsends hn
  rw [happly]
  obtain @⟨p, f, hp, hf, hsep, hno⟩ := hcallable
  have hprovides : Provides w.pluginPackages f.packageId f.name p := ⟨hp, f, hf, rfl, rfl⟩
  obtain ⟨sent, hsent, hdelivers⟩ := shimCall_delivers hcarries
    ((w.dispatchCtx_lookup _).mpr hno) (route_external hw hp hf hsep)
    (show shimArgs (.json (.object fields)) = .object fields from rfl) hfields (hanswers s.time p f.name)
  have hask {c : Completion}
      (hseen : shimCall js toText (sapphillonDispatch world.serde js (w.dispatcher world) s.time)
        (opKey f.packageId f.name) (.json (.object fields)) = c) (hc : ∀ e, c ≠ .stopped e) :
      play world.serde (w.dispatcher world)
        (askShim js toText (opKey f.packageId f.name) (js.stringify (.object fields))) s =
          ((outcome c).mapError .inl, { s with time := s.time + 1 }) := play_askShim hseen hc
  cases hcall : remoteCall world s.time w.dispatchCtx p f.name sent with
  | ok returns =>
    rw [hcall] at hdelivers
    obtain ⟨out, hseen, hout⟩ := hdelivers
    refine ⟨.ok out, .returned harg hprovides hsent hcall hout,
      (hanswers s.time p f.name sent returns hcall).perm hout, .data (.object out), h', .data, hext,
      ?_⟩
    exact Asking.play_bind_ok (hask hseen (by simp))
  | error msg =>
    rw [hcall] at hdelivers
    obtain ⟨_, hseen⟩ := hdelivers
    refine ⟨.error msg, .threw harg hprovides hsent hcall, ?_⟩
    exact Asking.play_bind_error (hask hseen (by simp))

theorem evalExpr_literal {host : JsHost} {scope : Scope Json Native} (h : JsHeap)
    (fields : List (String × String)) {n : Nat} (hn : fields.length + 2 ≤ n) :
    evalExpr host n scope (.object (fields.map fun f => (f.1, .string f.2))) h =
      pure (.ref h.next, h.alloc ⟨textProps fields, none⟩) := by
  obtain ⟨m, rfl⟩ : ∃ m, n = m + 1 := ⟨n - 1, by omega⟩
  rw [evalExpr_object, evalFields_texts h fields [] (by omega), pure_bind, List.append_nil]

/-- An expression of calls plays as what it yields. -/
theorem playsAs_expr (hcarries : Carries world.serde js toText Shared)
    (hstrings : ∀ s, Shared (.string s)) (hw : WellFormed w.pluginPackages)
    (hanswers : SharedAnswers world w Shared) (hroot : inherited "Sapphillon" = none)
    (hjson : inherited "toJSON" = none) {c : CallExpr} {e : Expr} (hspells : Spells c e)
    (hcalls : ∀ fn ∈ c.calls, CallsInstalled w fns fn) (hinst : Installed h fns) (s : Moment)
    {n : Nat} (hn : exprSteps c ≤ n) :
    ∃ t r, Yields world w s.time c t r ∧
      PlaysAs world w Shared (evalExpr (shimHost js toText inherited) n none e h) h s
        { s with time := t } r := by
  have hhost : Visible (shimHost js toText inherited) := visible_shimHost js toText hroot
  induction hspells generalizing n with
  | @literal fields nodup keys =>
    refine ⟨s.time, .ok (texts fields), .literal fields, ?_, .ref h.next,
      h.alloc ⟨textProps fields, none⟩, .ref (toJson_textProps nodup keys h),
      Heap.extends_alloc _ _, ?_⟩
    · refine ⟨by simpa [texts, Function.comp_def] using nodup, fun f hf => ?_⟩
      obtain ⟨g, _, rfl⟩ := List.mem_map.mp hf
      exact hstrings g.2
    · rw [evalExpr_literal h fields hn]
      rfl
  | @call pkg func arg f e hf hspells ih =>
    obtain ⟨hfn, hrest⟩ := List.forall_mem_cons.mp hcalls
    obtain ⟨a, ha, hdenotes, hcode⟩ := denotes_function hhost unshadowed_none hinst hfn.installed
      hfn.pkg_proto hfn.func_proto hf
    simp only [exprSteps] at hn
    obtain ⟨m, rfl⟩ : ∃ m, n = m + 3 := ⟨n - 3, by omega⟩
    obtain ⟨t, r, hyields, hplays⟩ := ih hrest (n := m + 1) (by omega)
    rw [eval_call_one hdenotes (by omega)]
    cases r with
    | ok fields =>
      obtain ⟨hshared, v, h', hv, hext, hplay⟩ := hplays
      obtain ⟨r, hyields', hplays'⟩ := playsAs_apply hcarries hw hanswers hroot hjson
        (s := { s with time := t }) hfn.callable (hinst.congr hext).1
        ((hext.code a ha).trans hcode) hv.sends hshared hyields (show 9 ≤ m + 2 by omega)
      exact ⟨t + 1, r, hyields', hplays'.after hplay hext⟩
    | error msg => exact ⟨t, .error msg, .stuck hyields, Asking.play_bind_error hplays⟩
  | @callEmpty pkg func f hf =>
    obtain ⟨hfn, _⟩ := List.forall_mem_cons.mp hcalls
    obtain ⟨a, ha, hdenotes, hcode⟩ := denotes_function hhost unshadowed_none hinst hfn.installed
      hfn.pkg_proto hfn.func_proto hf
    simp only [exprSteps] at hn
    obtain ⟨m, rfl⟩ : ∃ m, n = m + 2 := ⟨n - 2, by omega⟩
    obtain ⟨r, hyields, hplays⟩ := playsAs_apply hcarries hw hanswers hroot hjson (v := .undefined)
      hfn.callable hinst.1 hcode rfl ⟨List.nodup_nil, fun f hf => by cases hf⟩ (.literal []) (s := s)
      (show 9 ≤ m + 1 by omega)
    refine ⟨s.time + 1, r, hyields, ?_⟩
    -- A missing argument is bound to nothing.
    have hmissing : applyValue (shimHost js toText inherited) (m + 1) (.ref a) [] h =
        applyValue (shimHost js toText inherited) (m + 1) (.ref a) [.undefined] h := by
      rw [apply_function hcode, apply_function hcode]
      rfl
    rwa [eval_call hdenotes (by omega), evalArgs_nil, pure_bind, hmissing]

/-! ### Statements -/

theorem denotes_console (hroot : inherited "Sapphillon" = none) (hready : Ready h)
    {method : ConsoleMethod} {f : Expr}
    (hf : SpellsMember (.name "console") (methodName method) f) :
    Denotes (shimHost js toText inherited) none h 2 f (.native (.console method)) := by
  have hread := denotes_globalName (visible_shimHost js toText hroot) unshadowed_none
    (show "console" ∈ globalNames by decide) hready.console
  refine denotes_spelledMember hf (by omega) hread
    (getProp_own ?_ (hready.code _ (Nat.le_refl _)) (hready.method method))
  cases method <;> decide

/-- A console function puts the object as a text. -/
theorem play_console (hjson : inherited "toJSON" = none) (method : ConsoleMethod)
    {fields : List (String × Json)} {v : Value Json Native} (hv : Holds h fields v) (s : Moment)
    (n : Nat) :
    play world.serde (w.dispatcher world)
        (applyValue (shimHost js toText inherited) (n + 1) (.native (.console method)) [v] h) s =
      (.ok (.hidden, h), { s with
        stdoutBuf := s.stdoutBuf ++ [consoleText method [js.stringify (.object fields)]] }) := by
  have happly : applyValue (shimHost js toText inherited) (n + 1) (.native (.console method)) [v] h =
      Asking.query (ModuleCall.console method [js.stringify (.object fields)]) >>= fun _ =>
        pure (.hidden, h) := by
    simp only [applyValue_native, shimHost, callNative, List.mapM_cons, List.mapM_nil,
      hv.formatValue hjson]
    rfl
  rw [happly]
  rfl

/-- What statements from a heap play as: they put the texts, or they stop with the error. -/
def ScriptPlaysAs (world : World) (w : CoreWorkflowCode)
    (x : Run (Option (Value Json Native) × JsHeap)) (s : Moment) :
    Except String (List String) → Prop
  | .ok lines => ∃ h' t, play world.serde (w.dispatcher world) x s =
      (.ok (none, h'), ⟨t, s.stdoutBuf ++ lines⟩)
  | .error msg => ∃ s', play world.serde (w.dispatcher world) x s = (.error (.inl (thrown msg)), s')

/-- What comes behind a statement puts its texts behind those of the statement. -/
theorem ScriptPlaysAs.after (first : List String) {α : Type} {x : Run α} {a : α} {s s₁ : Moment}
    (hplay : play world.serde (w.dispatcher world) x s = (.ok a, s₁))
    (hbuf : s₁.stdoutBuf = s.stdoutBuf ++ first)
    {f : α → Run (Option (Value Json Native) × JsHeap)} {r r' : Except String (List String)}
    (hrest : ScriptPlaysAs world w (f a) s₁ r) (hr : r.map (first ++ ·) = r') :
    ScriptPlaysAs world w (x >>= f) s r' := by
  obtain rfl := hr
  cases r with
  | ok lines =>
    obtain ⟨h', t, hrest⟩ := hrest
    refine ⟨h', t, ((Asking.play_bind_ok hplay).trans hrest).trans ?_⟩
    rw [hbuf, List.append_assoc]
  | error msg =>
    obtain ⟨s', hrest⟩ := hrest
    exact ⟨s', (Asking.play_bind_ok hplay).trans hrest⟩

/-- A script of calls plays as what its statements put. -/
theorem scriptPlaysAs (hcarries : Carries world.serde js toText Shared)
    (hstrings : ∀ s, Shared (.string s)) (hw : WellFormed w.pluginPackages)
    (hanswers : SharedAnswers world w Shared) (hroot : inherited "Sapphillon" = none)
    (hjson : inherited "toJSON" = none) {script : List CallStmt} {body : List Stmt}
    (hspells : List.Forall₂ SpellsStmt script body)
    (hcalls : ∀ stmt ∈ script, ∀ fn ∈ stmt.expr.calls, CallsInstalled w fns fn)
    (hinst : Installed h fns) (s : Moment) {n : Nat} (hn : scriptSteps script ≤ n) :
    ∃ r, Prints world w js.stringify s.time script r ∧
      ScriptPlaysAs world w (execStmts (shimHost js toText inherited) n none body h) s r := by
  induction hspells generalizing h s n with
  | nil =>
    obtain ⟨m, rfl⟩ : ∃ m, n = m + 1 := ⟨n - 1, by simp only [scriptSteps] at hn; omega⟩
    exact ⟨.ok [], .done, h, s.time, by rw [List.append_nil]; rfl⟩
  | @cons stmt st script body hstmt _ ih =>
    obtain ⟨hcall, hrestCalls⟩ := List.forall_mem_cons.mp hcalls
    simp only [scriptSteps] at hn
    cases hstmt with
    | @run c e he =>
      simp only [CallStmt.expr] at hn hcall
      obtain ⟨m, rfl⟩ : ∃ m, n = m + 1 := ⟨n - 1, by omega⟩
      obtain ⟨t, r, hyields, hplays⟩ := playsAs_expr hcarries hstrings hw hanswers hroot hjson he
        hcall hinst s (n := m) (by omega)
      rw [exec_expr]
      cases r with
      | error msg => exact ⟨.error msg, .threw hyields, _, Asking.play_bind_error hplays⟩
      | ok fields =>
        obtain ⟨_, v, h', _, hext, hplay⟩ := hplays
        obtain ⟨r, hprints, hrest⟩ := ih hrestCalls (hinst.congr hext) { s with time := t } (n := m)
          (by omega)
        refine ⟨r, .run hyields hprints, ScriptPlaysAs.after [] hplay (List.append_nil _).symm hrest ?_⟩
        cases r <;> rfl
    | @print method c f e hf he =>
      simp only [CallStmt.expr] at hn hcall
      obtain ⟨m, rfl⟩ : ∃ m, n = m + 4 := ⟨n - 4, by omega⟩
      obtain ⟨t, r, hyields, hplays⟩ := playsAs_expr hcarries hstrings hw hanswers hroot hjson he
        hcall hinst s (n := m + 1) (by omega)
      rw [exec_expr, eval_call_one (denotes_console hroot hinst.1 hf) (by omega)]
      cases r with
      | error msg =>
        exact ⟨.error msg, .threw hyields, _,
          Asking.play_bind_error (Asking.play_bind_error hplays)⟩
      | ok fields =>
        obtain ⟨_, v, h', hv, hext, hplay⟩ := hplays
        obtain ⟨r, hprints, hrest⟩ := ih hrestCalls (hinst.congr hext)
          { s with
            time := t
            stdoutBuf := s.stdoutBuf ++ [consoleText method [js.stringify (.object fields)]] }
          (n := m + 3) (by omega)
        refine ⟨_, .print hyields hprints, ScriptPlaysAs.after
          [consoleText method [js.stringify (.object fields)]] (a := (.hidden, h')) ?_ ?_ hrest rfl⟩
        · exact (Asking.play_bind_ok hplay).trans
            (play_console hjson method hv { s with time := t } (m + 1))
        · rfl

end Expressions

end Sapphillon.ScriptPlay
