import Sapphillon.ScriptPlay

/-! A run of a workflow end to end: a script of calls, through the shims, `plugin.js`, the host
function, the dispatcher and the client, puts what its remote calls yield. -/
namespace Sapphillon.WholeRun
open JsSyntax JsEval JsEngine JsInterface ExtPlugin Plugin Proto
open ShimText ShimProgram ShimRealm ScriptCalls PluginRun Envelope RemoteCall ScriptMeaning ScriptPlay
open Sapphillon.Runtime Dispatch Routing Stdout Workflow

/-! ### The run -/

/-- The module reads in its input the texts the run was started with. -/
def InputCarried (serde : Serde) (js : JsJson) (script : String) (preScripts : List String) : Prop :=
  ∃ input j, serde.ofValue (scriptInput script preScripts) = .ok input ∧ js.parse input = .ok j ∧
    j.field? "script" = some (.string script) ∧
    j.field? "pre_scripts" = some (.array (preScripts.map .string))

/-- The external functions of a workflow have names that a shim can install. -/
structure ShimsInstall (w : CoreWorkflowCode) (inherited : String → Option (Value Json Native)) :
    Prop where
  internal : ∀ c, .core c ∈ w.pluginPackages → ∀ f ∈ c.functions, f.preRunJs = none
  plain : ∀ fn ∈ w.pluginPackages.flatMap externalNames, PlainName fn.1 ∧ PlainName fn.2
  free : ∀ fn ∈ w.pluginPackages.flatMap externalNames,
    fn.1 ≠ "__proto__" ∧ inherited fn.1 = none ∧ fn.2 ≠ "__proto__"

theorem mapM_asStr (texts : List String) :
    (texts.map Json.string).mapM Json.asStr? = some texts := by
  rw [List.mapM_map]
  exact (mapM_eq_some_map fun _ _ => rfl).trans (by rw [List.map_id'])

theorem runScript_eq_sources {js : JsJson} {host : JsHost} {strict : Bool} {n : Nat} {realm : JsHeap}
    {input script : String} {preScripts : List String} {j : Json} (hparse : js.parse input = .ok j)
    (hscript : j.field? "script" = some (.string script))
    (hpre : j.field? "pre_scripts" = some (.array (preScripts.map .string))) :
    PluginRun.runScript js host strict n realm input =
      evalSources host strict n preScripts realm >>= evalSource host strict n script := by
  cases j with
  | object fields =>
    simp only [PluginRun.runScript, hparse, member, hscript, hpre, textOr, textsOr, mapM_asStr]
  | _ => cases hscript

/-- A run of the exported function is a run of the module on its input. -/
theorem result_runScriptImpl {serde : Serde} {Ctx : Type} {plugin : EnginePlugin} {time : Nat}
    {script input : String} {preScripts : List String} (dispatcher : PluginDispatcher Ctx)
    (hnew : plugin.new = .ok ()) (hinput : serde.ofValue (scriptInput script preScripts) = .ok input) :
    (runScriptImpl serde plugin time script preScripts dispatcher).result =
      (runGuest serde dispatcher time (plugin.call input)).result := by
  simp only [runScriptImpl, hnew, hinput, Except.mapError, Traced.lift_ok_bind, Traced.result_bind]
  cases (runGuest serde dispatcher time (plugin.call input)).result <;> rfl

/-- The entry for what a script of calls put, or for the error that stopped it. -/
def entryFor (elapsedMs : Int64) (report : Stop Completion → String) :
    Except String (List String) → WorkflowResult
  | .ok lines =>
    { status := WorkflowStatus.ok.toI32
      stdout := dropEmptyLines ("\n".intercalate lines)
      durationMs := elapsedMs
      errorMessage := "" }
  | .error msg =>
    { status := WorkflowStatus.error.toI32
      stdout := ""
      durationMs := elapsedMs
      errorMessage := (scriptError (report (thrown msg))).display }

def sampleCode : String :=
  "console.log(Sapphillon.files.read(Sapphillon.files.read(\x7b path: \"/data/a\" \x7d)));\n" ++
    "globalThis.Sapphillon[\"files\"][\"read\"]();"

def sampleScript : List CallStmt :=
  [.print .log (.call "files" "read" (.call "files" "read" (.literal [("path", "/data/a")]))),
    .run (.call "files" "read" (.literal []))]

def readExpr (arg : Expr) : Expr :=
  .call (.member (.member (.name "Sapphillon") "files") "read") [arg]

def sampleBody : List Stmt :=
  [.expr (.call (.member (.name "console") "log")
      [readExpr (readExpr (.object [("path", .string "/data/a")]))]),
    .expr (.call (.index (.index sapphillon (.string "files")) (.string "read")) [])]

def sampleTokens : List Token :=
  [.word "console", .symbol '.', .word "log", .symbol '(', .word "Sapphillon", .symbol '.',
    .word "files", .symbol '.', .word "read", .symbol '(', .word "Sapphillon", .symbol '.',
    .word "files", .symbol '.', .word "read", .symbol '(', .symbol '\x7b', .word "path", .symbol ':',
    .string "/data/a", .symbol '\x7d', .symbol ')', .symbol ')', .symbol ')', .symbol ';',
    .word "globalThis", .symbol '.', .word "Sapphillon", .symbol '[', .string "files", .symbol ']',
    .symbol '[', .string "read", .symbol ']', .symbol '(', .symbol ')', .symbol ';']

theorem parse_sampleCode : parse true sampleCode.toList = some sampleBody := by
  have hlex : lex true sampleCode.toList = some sampleTokens := by decide +kernel
  rw [parse, hlex]
  rfl

theorem spells_sampleBody : List.Forall₂ SpellsStmt sampleScript sampleBody := by
  have hread : SpellsFunction "files" "read" (.member (.member (.name "Sapphillon") "files") "read") :=
    ⟨.name, .dot, .dot⟩
  have hliteral : Spells (.literal [("path", "/data/a")]) (.object [("path", .string "/data/a")]) :=
    Spells.literal (by decide) (by decide)
  exact .cons (.print .dot (.call hread (.call hread hliteral)))
    (.cons (.run (.callEmpty ⟨.property, .brackets, .brackets⟩)) .nil)

def sampleWorkflow : CoreWorkflowCode := { objectWorkflow with code := sampleCode }

/-- A text as it stands between the quotes of a JSON string. -/
def escaped (s : String) : List Char :=
  s.toList.flatMap fun c => if c = '\n' then ['\\', 'n'] else JsonText.escapeChar c

/-- The input of the run, as `serde_json` writes it. -/
def sampleInput : String :=
  String.ofList <| '\x7b' :: '"' :: JsonText.writeChars "pre_scripts".toList
    (':' :: '[' :: '"' :: (escaped (externalShim "files" "read") ++
      ("\"],\"script\":\"".toList ++ (escaped sampleCode ++ ['"', '\x7d']))))

theorem readObject_array (key : String) (tail : List Char) :
    JsonText.readObject (String.ofList
      ('\x7b' :: '"' :: JsonText.writeChars key.toList (':' :: '[' :: tail))) = none := by
  simp [JsonText.readObject, JsonText.readField, JsonText.readChars_writeChars]

/-- The writers of objects of strings and of this input. -/
def runSerde : Serde :=
  { objectSerde with
    ofValue := fun j =>
      match j.field? "pre_scripts" with
      | some (.array _) => .ok sampleInput
      | _ => JsonText.writeValue j }

def sampleRead : Json :=
  .object [("pre_scripts", .array [.string (externalShim "files" "read")]),
    ("script", .string sampleCode)]

def runJs : JsJson where
  stringify := textJs.stringify
  parse text :=
    match JsonText.readValue text with
    | .ok j => .ok j
    | .error e => if text = sampleInput then .ok sampleRead else .error e

theorem parse_runJs_unread {text : String} (h : JsonText.readObject text = none) :
    runJs.parse text = if text = sampleInput then .ok sampleRead else .error "expected value" := by
  simp only [runJs, JsonText.readValue, h]

def runWorld : World := ⟨objectExtism, runSerde, fun _ => none⟩

theorem ofValue_runSerde (fields : List (String × String)) :
    runSerde.ofValue (Json.stringObject fields) = JsonText.writeValue (Json.stringObject fields) := by
  simp only [runSerde]
  split
  · rename_i items hfield
    obtain ⟨l₁, l₂, hl, _⟩ := List.lookup_eq_some_iff.mp hfield
    have hmem : ("pre_scripts", Json.array items) ∈ fields.map fun f => (f.1, Json.string f.2) := by
      rw [show fields.map (fun f => (f.1, Json.string f.2)) = _ from hl]
      simp
    simp at hmem
  · rfl

theorem carries_run : Carries runSerde runJs textOf IsText where
  strings :=
    { request := carries_texts.strings.request
      reply := by
        intro fields _
        refine ⟨JsonText.writeObject fields, Json.stringObject fields, ?_, ?_, fun _ => rfl⟩
        · rw [ofValue_runSerde, JsonText.writeValue_stringObject]
        · simp only [runJs, JsonText.readValue_writeObject] }
  text := carries_texts.text
  args := carries_texts.args
  returns args hargs := by
    obtain ⟨text, fields, htext, hparse, hrest⟩ := carries_texts.returns args hargs
    refine ⟨text, fields, htext, ?_, hrest⟩
    have hread : JsonText.readValue text = .ok (.object fields) := hparse
    simp only [runJs, hread]

theorem inputCarried_sample :
    InputCarried runSerde runJs sampleWorkflow.code sampleWorkflow.preScripts := by
  have hpre : sampleWorkflow.preScripts = [externalShim "files" "read"] := rfl
  have hunread : JsonText.readObject sampleInput = none := readObject_array "pre_scripts" _
  refine ⟨sampleInput, sampleRead, rfl, ?_, rfl, ?_⟩
  · exact (parse_runJs_unread hunread).trans (if_pos rfl)
  · rw [hpre]
    rfl

def reportText : Stop Completion → String
  | .host (.threwError (.json (.string msg))) => "Error: " ++ msg
  | _ => "Error"

def sampleHost : JsHost := shimHost runJs textOf fun _ => none

def sampleEngine : EnginePlugin :=
  jsPlugin (.ok ()) fun input =>
    toScript reportText (PluginRun.runScript runJs sampleHost true 60 freshRealm input)

theorem callable_sample : Callable sampleWorkflow ("files", "read") :=
  Callable.intro (p := samplePackage "files" [("files-read", "read")])
    (f := ⟨"files-read", "read", "", "", "files"⟩) (.head _) (.head _) (by decide)
    fun c hc => by simp [sampleWorkflow, objectWorkflow, CoreWorkflowCode.new] at hc

def sampleLoaded : SapphillonPackage :=
  ⟨[("read", ⟨[PermissionType.filesystemRead.toI32]⟩)], "files.wasm"⟩

def sampleAnswer : List (String × String) := [("text", "say \"hi\"")]

/-- The module answers whatever texts it is sent. -/
theorem remoteCall_sample (t : Nat) (fields : List (String × String)) :
    remoteCall runWorld t sampleWorkflow.dispatchCtx (samplePackage "files" [("files-read", "read")])
      "read" (texts fields) = .ok ⟨texts sampleAnswer⟩ := by
  have hinput : ∃ input, runWorld.serde.ofBridgeArgs ⟨"read", texts fields⟩ = .ok input := by
    have hwrite : JsonText.writeValue (.object (texts fields)) = .ok (JsonText.writeObject fields) :=
      JsonText.writeValue_stringObject fields
    simp only [runWorld, runSerde, objectSerde, hwrite]
    exact ⟨_, rfl⟩
  obtain ⟨input, hinput⟩ := hinput
  have hload : (loadPackage runWorld t
      (samplePackage "files" [("files-read", "read")]).wasmPath).result = .ok sampleLoaded := rfl
  have hclient : (extpluginClient runWorld.extism runWorld.serde (2 * t + 1) sampleLoaded "read"
      ⟨"read", texts fields⟩ (clientGrants runWorld sampleWorkflow.dispatchCtx "read")).result =
        .ok ⟨texts sampleAnswer⟩ := by
    rw [extpluginClient, Traced.result_bind]
    simp only [hinput]
    rfl
  rw [remoteCall, hload]
  exact congrArg (Except.mapError _) hclient

/-- The answers are texts again, so no call of the script fails. -/
theorem yields_sample {t t' : Nat} {e : CallExpr} {r : Except String (List (String × Json))}
    (h : Yields runWorld sampleWorkflow t e t' r) (hcalls : ∀ fn ∈ e.calls, fn = ("files", "read")) :
    ∃ fields, r = .ok (texts fields) ∧ (e.calls ≠ [] → fields = sampleAnswer) := by
  have hread {t : Nat} {pkg func : String} {sent : List (String × Json)}
      {fs : List (String × String)} {p : CorePluginExternalPackage}
      (hfn : (pkg, func) = ("files", "read")) (hp : Provides sampleWorkflow.pluginPackages pkg func p)
      (hsent : sent.Perm (texts fs)) :
      remoteCall runWorld t sampleWorkflow.dispatchCtx p func sent = .ok ⟨texts sampleAnswer⟩ := by
    obtain ⟨rfl, rfl⟩ := Prod.mk.inj hfn
    obtain rfl : p = samplePackage "files" [("files-read", "read")] := by
      simpa [sampleWorkflow, objectWorkflow, CoreWorkflowCode.new] using hp.1
    have htext : ∀ f ∈ sent, IsText f.2 := by
      intro f hf
      obtain ⟨g, _, rfl⟩ := List.mem_map.mp (hsent.subset hf)
      exact ⟨g.2, rfl⟩
    obtain ⟨fs', rfl⟩ := exists_texts htext
    exact remoteCall_sample t fs'
  induction h with
  | literal fields => exact ⟨fields, rfl, fun hne => absurd rfl hne⟩
  | returned _ provides hsent hcall hout ih =>
    obtain ⟨hfn, hrest⟩ := List.forall_mem_cons.mp hcalls
    obtain ⟨fs, hfs, _⟩ := ih hrest
    obtain rfl := Except.ok.inj hfs
    rw [hread hfn provides hsent] at hcall
    obtain rfl := Except.ok.inj hcall
    exact ⟨sampleAnswer, congrArg _ (List.perm_singleton.mp hout), fun _ => rfl⟩
  | threw _ provides hsent hcall ih =>
    obtain ⟨hfn, hrest⟩ := List.forall_mem_cons.mp hcalls
    obtain ⟨fs, hfs, _⟩ := ih hrest
    obtain rfl := Except.ok.inj hfs
    rw [hread hfn provides hsent] at hcall
    cases hcall
  | stuck _ ih =>
    obtain ⟨fs, hfs, _⟩ := ih (List.forall_mem_cons.mp hcalls).2
    cases hfs

def sampleLine : String := "\x7b\"text\":\"say \\\"hi\\\"\"\x7d"

theorem prints_sample {t : Nat} {r : Except String (List String)}
    (h : Prints runWorld sampleWorkflow runJs.stringify t sampleScript r) : r = .ok [sampleLine] := by
  have hline : consoleText .log [runJs.stringify (.object (texts sampleAnswer))] = sampleLine := by
    decide +kernel
  cases h with
  | print he hrest =>
    obtain ⟨fields, hfields, hanswer⟩ := yields_sample he (by simp [CallExpr.calls])
    obtain rfl := Except.ok.inj hfields
    obtain rfl := hanswer (by simp [CallExpr.calls])
    cases hrest with
    | run he hrest =>
      cases hrest
      rw [hline]
      rfl
    | threw he =>
      obtain ⟨fields, hfields, _⟩ := yields_sample he (by simp [CallStmt.expr, CallExpr.calls])
      cases hfields
  | threw he =>
    obtain ⟨fields, hfields, _⟩ := yields_sample he (by simp [CallStmt.expr, CallExpr.calls])
    cases hfields

end Sapphillon.WholeRun
