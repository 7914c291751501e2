import Sapphillon.Envelope
import Sapphillon.Routing

/-! The call of an external function as a script sees it. Between the script and the module
stand three texts of JSON, the op key and the routing; put together they make a remote call
that gives the module's answer or throws its error. -/
namespace Sapphillon.RemoteCall
open ExtPlugin JsEngine JsonText Envelope Plugin Proto
open Sapphillon.Runtime Dispatch Routing Workflow

/-! ### The body of a shim -/

/-- `args ?? {}`. -/
def shimArgs : JsValue → Json
  | .undefined => .object []
  | .json .null => .object []
  | .json j => j

section Shim
variable (js : JsJson) (toText : JsValue → String) (dispatch : String → String → Completion)

/-- `JSON.parse(raw)`, of whatever the dispatch returned. -/
def parseRaw (raw : JsValue) : Completion :=
  match js.parse (toText raw) with
  | .ok j => .returned (.json j)
  | .error e => .threwOther e

/-- The function a shim installs, called with a value. -/
def shimCall (key : String) (args : JsValue) : Completion :=
  match dispatch key (js.stringify (shimArgs args)) with
  | .returned raw => parseRaw js toText raw
  | .threwError e => .threwError e
  | .threwOther msg => .threwOther msg
  | .stopped msg => .stopped msg

end Shim

/-! ### The call behind the texts -/

variable (world : World)

/-- The remote call itself: the module is loaded and its function called with the fields, under
the grants of the function's name. -/
def remoteCall (time : Nat) (ctx : DispatchCtx) (pkg : CorePluginExternalPackage)
    (funcName : String) (args : List (String × Json)) : Except String RsJsBridgeReturns := do
  let package ← (loadPackage world time pkg.wasmPath).result.mapError fun e =>
    "failed to load wasm '" ++ pkg.wasmPath ++ "': " ++ e.display
  (extpluginClient world.extism world.serde (2 * time + 1) package funcName ⟨funcName, args⟩
    (clientGrants world ctx funcName)).result.mapError fun e => "extism call failed: " ++ e.display

/-- A script got the answer of a remote call as an object, with its fields in some order, or its
error as an exception with that text, which is never empty. -/
def Delivers (seen : Completion) : Except String RsJsBridgeReturns → Prop
  | .ok returns => ∃ fields, seen = .returned (.json (.object fields)) ∧ fields.Perm returns.args
  | .error msg => msg ≠ "" ∧ seen = .threwError (.json (.string msg))

/-- Fields with different keys, and values both sides have. -/
structure SharedFields (Shared : Json → Prop) (fields : List (String × Json)) : Prop where
  distinct : (fields.map Prod.fst).Nodup
  shared : ∀ f ∈ fields, Shared f.2

theorem SharedFields.perm {Shared : Json → Prop} {fields fields' : List (String × Json)}
    (h : SharedFields Shared fields) (hperm : fields'.Perm fields) : SharedFields Shared fields' :=
  ⟨(hperm.map Prod.fst).nodup_iff.mpr h.distinct, fun f hf => h.shared f (hperm.subset hf)⟩

/-- The readers on both sides see what the writers on the other side wrote, on objects of
strings and on objects of values both sides have. -/
structure Carries (serde : Serde) (js : JsJson) (toText : JsValue → String)
    (Shared : Json → Prop) : Prop where
  strings : ExactOnStrings serde js
  text : ∀ s, toText (.json (.string s)) = s
  args : ∀ fields, SharedFields Shared fields →
    ∃ args, serde.indexMap (js.stringify (.object fields)) = .ok args ∧ args.Perm fields
  returns : ∀ args, SharedFields Shared args →
    ∃ text fields, serde.ofIndexMap args = .ok text ∧ js.parse text = .ok (.object fields) ∧
      fields.Perm args

variable {world}

/-- What an external dispatch answers is the remote call's answer as a text. -/
theorem dispatchExternal_result (time : Nat) (ctx : DispatchCtx) (pkg : CorePluginExternalPackage)
    (funcName argsJson : String) :
    (dispatchExternal world time ctx pkg funcName argsJson).result =
      (remoteCall world time ctx pkg funcName (clientArgs world funcName argsJson).args).bind
        fun returns => world.serde.ofIndexMap returns.args := by
  simp only [dispatchExternal, remoteCall, Traced.result_bind, Traced.result_mapError,
    Traced.result_mapEvents, Traced.result_emit, Traced.result_lift]
  cases (loadPackage world time pkg.wasmPath).result with
  | error e => rfl
  | ok package => rfl

theorem remoteCall_error {time : Nat} {ctx : DispatchCtx} {pkg : CorePluginExternalPackage}
    {funcName msg : String} {args : List (String × Json)}
    (h : remoteCall world time ctx pkg funcName args = .error msg) : msg ≠ "" := by
  have hload (text : String) : "failed to load wasm '" ++ pkg.wasmPath ++ "': " ++ text ≠ "" := by
    simp [String.ext_iff]
  have hclient (text : String) : "extism call failed: " ++ text ≠ "" := by simp [String.ext_iff]
  simp only [remoteCall, bind, Except.bind] at h
  cases hp : (loadPackage world time pkg.wasmPath).result with
  | error e =>
    obtain rfl : _ = msg := by simpa [hp, Except.mapError] using h
    exact hload _
  | ok package =>
    simp only [hp, Except.mapError] at h
    split at h
    · obtain rfl := Except.error.inj h
      exact hclient _
    · cases h

/-- The answer of a remote call is read from an output of the module. -/
theorem remoteCall_ok {time : Nat} {ctx : DispatchCtx} {pkg : CorePluginExternalPackage}
    {funcName : String} {args : List (String × Json)} {returns : RsJsBridgeReturns}
    (h : remoteCall world time ctx pkg funcName args = .ok returns) :
    ∃ raw, world.serde.bridgeReturns raw = .ok returns := by
  simp only [remoteCall, bind, Except.bind] at h
  split at h
  · cases h
  · simp only [Traced.mapError_eq_ok, extpluginClient, Traced.bind_eq_ok, Traced.result_lift] at h
    obtain ⟨_, _, _, _, _, _, _, _, _, _, raw, _, hraw⟩ := h
    exact ⟨raw, hraw⟩

/-! ### The whole way -/

section WholeWay
variable {js : JsJson} {toText : JsValue → String} {Shared : Json → Prop}

/-- A call that is routed to a function of a package delivers the remote call, whatever the
fields of its argument. -/
theorem shimCall_delivers (hcarries : Carries world.serde js toText Shared) {time : Nat}
    {ctx : DispatchCtx} {key funcName : String} {pkg : CorePluginExternalPackage}
    (hi : ctx.internal.lookup key = none) (hroute : externalRoute ctx key = some (pkg, funcName))
    {args : JsValue} {fields : List (String × Json)} (hargs : shimArgs args = .object fields)
    (hfields : SharedFields Shared fields)
    (hreturns : ∀ sent returns, remoteCall world time ctx pkg funcName sent = .ok returns →
      SharedFields Shared returns.args) :
    ∃ sent, sent.Perm fields ∧
      Delivers (shimCall js toText
          (sapphillonDispatch world.serde js ⟨ctx, dispatchCall world⟩ time) key args)
        (remoteCall world time ctx pkg funcName sent) := by
  obtain ⟨sent, hsent, hsame⟩ := hcarries.args fields hfields
  have hargsMap : (clientArgs world funcName (js.stringify (.object fields))).args = sent := by
    simp [clientArgs, hsent, Except.toOption]
  have hcall : dispatchCall world time ctx key (js.stringify (.object fields)) =
      (remoteCall world time ctx pkg funcName sent).bind
        fun returns => world.serde.ofIndexMap returns.args := by
    rw [dispatchCall, dispatchImpl_external world hi hroute, dispatchExternal_result, hargsMap]
  refine ⟨sent, hsame, ?_⟩
  rw [shimCall, hargs, sapphillonDispatch_eq hcarries.strings]
  simp only [hcall]
  cases hr : remoteCall world time ctx pkg funcName sent with
  | error msg =>
    have hmsg : msg ≠ "" := remoteCall_error hr
    simp [Except.bind, hmsg, seen, Delivers]
  | ok returns =>
    obtain ⟨text, out, htext, hparse, hout⟩ :=
      hcarries.returns returns.args (hreturns sent returns hr)
    simp only [Except.bind, htext, reduceCtorEq, if_false, seen, parseRaw, hcarries.text, hparse]
    exact ⟨out, rfl, hout⟩

/-- The key of a function of a well-formed workflow leads to its package. -/
theorem route_external {w : CoreWorkflowCode} (hw : WellFormed w.pluginPackages)
    {p : CorePluginExternalPackage} (hp : .external p ∈ w.pluginPackages)
    {f : CorePluginExternalFunction} (hf : f ∈ p.functions) (hsep : Separable p.id) :
    externalRoute w.dispatchCtx (opKey f.packageId f.name) = some (p, f.name) := by
  have hpackages := w.dispatchCtx_external
  have hmem : p ∈ w.dispatchCtx.external := by
    rw [hpackages]
    exact List.mem_filterMap.mpr ⟨_, hp, rfl⟩
  have hdistinct : w.dispatchCtx.external.Pairwise fun p q => p.id ≠ q.id := by
    rw [hpackages]
    exact hw.distinct
  rw [hw.held p hp f hf]
  exact externalRoute_eq_some.mpr
    ⟨p.id, (splitOpKey_opKey_iff p.id f.name).mpr hsep, find?_of_pairwise_ne hdistinct hmem⟩

end WholeWay

/-! ### A module that gives its text back -/

/-- Values both sides have. -/
def IsText (j : Json) : Prop := ∃ s, j = .string s

/-- A module whose export `read` answers with one field. -/
def objectExtism : Extism :=
  { sampleExtism with
    call := fun time manifest exportName input =>
      if exportName = "read" then .ok "\x7b\"args\":\x7b\"text\":\"say \\\"hi\\\"\"\x7d\x7d"
      else sampleExtism.call time manifest exportName input }

/-- The readers and writers of objects of strings, and of the answer of this module. -/
def objectSerde : Serde :=
  { Envelope.textSerde with
    indexMap := fun text =>
      match readObject text with
      | some fields => .ok (fields.map fun f => (f.1, .string f.2))
      | none => .error "expected value"
    ofIndexMap := fun args => writeValue (.object args)
    ofBridgeArgs := fun args => (writeValue (.object args.args)).map fun text =>
      "\x7b\"func_name\":\"" ++ args.funcName ++ "\",\"args\":" ++ text ++ "\x7d"
    bridgeReturns := fun _ => .ok ⟨[("text", .string "say \"hi\"")]⟩ }

theorem exists_texts {fields : List (String × Json)} (h : ∀ f ∈ fields, IsText f.2) :
    ∃ texts : List (String × String), fields = texts.map fun f => (f.1, .string f.2) := by
  induction fields with
  | nil => exact ⟨[], rfl⟩
  | cons f fields ih =>
    obtain ⟨⟨s, hs⟩, hrest⟩ := List.forall_mem_cons.mp h
    obtain ⟨texts, htexts⟩ := ih hrest
    exact ⟨(f.1, s) :: texts, by rw [List.map_cons, htexts, ← hs]⟩

/-- `String(x)` of a string and of `undefined`. -/
def textOf : JsValue → String
  | .json (.string s) => s
  | _ => "undefined"

theorem carries_texts : Carries objectSerde textJs textOf IsText where
  strings := ⟨exactOnStrings_text.request, exactOnStrings_text.reply⟩
  text _ := rfl
  args fields hfields := by
    obtain ⟨texts, rfl⟩ := exists_texts hfields.shared
    have hwrite : textJs.stringify (.object (texts.map fun f => (f.1, .string f.2))) =
        writeObject texts := by
      change (writeValue (Json.stringObject texts)).toOption.getD "null" = _
      rw [writeValue_stringObject]
      rfl
    refine ⟨texts.map fun f => (f.1, .string f.2), ?_, .refl _⟩
    rw [hwrite]
    simp only [objectSerde, readObject_writeObject]
  returns args hargs := by
    obtain ⟨texts, rfl⟩ := exists_texts hargs.shared
    exact ⟨writeObject texts, _, writeValue_stringObject texts, readValue_writeObject texts, .refl _⟩

def objectWorld : World := ⟨objectExtism, objectSerde, fun _ => none⟩

def objectWorkflow : CoreWorkflowCode :=
  CoreWorkflowCode.new "w" "Sapphillon.files.read(\x7bpath: '/data/a'\x7d)"
    [.external (samplePackage "files" [("files-read", "read")])] 1
    [⟨"read", ⟨[Permission.new .filesystemRead "/data"]⟩⟩] []

end Sapphillon.RemoteCall
