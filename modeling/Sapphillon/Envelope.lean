import Sapphillon.JsEngine
import Sapphillon.JsonText
import Sapphillon.Dispatch

/-! One dispatched call from JavaScript and back: the host function wraps the outcome of the
dispatcher in an object with one field, and the JavaScript side tells the two cases apart
by whether the value of `err` is truthy. -/
namespace Sapphillon.Envelope
open ExtPlugin JsInterface JsEngine JsonText Sapphillon.Runtime Dispatch

/-- The readers on both sides see the fields the writers on the other side wrote, on
objects of strings. -/
structure ExactOnStrings (serde : Serde) (js : JsJson) : Prop where
  request : ∀ fields : List (String × String), (fields.map Prod.fst).Nodup →
    ∃ req, serde.value (js.stringify (Json.stringObject fields)) = .ok req ∧
      ∀ key, req.field? key = (Json.stringObject fields).field? key
  reply : ∀ fields : List (String × String), (fields.map Prod.fst).Nodup →
    ∃ raw rep, serde.ofValue (Json.stringObject fields) = .ok raw ∧ js.parse raw = .ok rep ∧
      ∀ key, rep.field? key = (Json.stringObject fields).field? key

/-- The outcome of the dispatcher as a JavaScript caller should see it. -/
def seen : Except String String → Completion
  | .ok s => .returned (.json (.string s))
  | .error m => .threwError (.json (.string m))

variable {serde : Serde} {js : JsJson} {Ctx : Type}

/-- The host function hands both texts to the dispatcher unchanged. -/
theorem host_result (h : ExactOnStrings serde js) (dispatcher : PluginDispatcher Ctx)
    (time : Nat) (opKey argsJson : String) :
    (sapphillonDispatchHost serde dispatcher time (js.stringify
      (.object [("op_key", .string opKey), ("args_json", .string argsJson)]))).result =
      serde.ofValue (envelope (dispatcher.callFn time dispatcher.ctx opKey argsJson)) := by
  obtain ⟨req, hreq, hfield⟩ :=
    h.request [("op_key", opKey), ("args_json", argsJson)] (by simp)
  have hkey : req.field? "op_key" = some (.string opKey) := by rw [hfield]; rfl
  have hargs : req.field? "args_json" = some (.string argsJson) := by rw [hfield]; rfl
  have hreq' : serde.value (js.stringify
      (.object [("op_key", .string opKey), ("args_json", .string argsJson)])) = .ok req := hreq
  simp only [sapphillonDispatchHost, hreq', Traced.lift_ok_bind, hkey, hargs]
  rfl

/-- A reply with the one field `ok` or `err`, as the JavaScript side reads it. -/
theorem readEnvelope_reply (h : ExactOnStrings serde js) (r : Except String String) :
    ∃ raw, serde.ofValue (envelope r) = .ok raw ∧
      readEnvelope js raw = if r = .error "" then .returned .undefined else seen r := by
  cases r with
  | ok s =>
    obtain ⟨raw, rep, hraw, hrep, hfield⟩ := h.reply [("ok", s)] (by simp)
    have hok : rep.field? "ok" = some (.string s) := by rw [hfield]; rfl
    have herr : rep.field? "err" = none := by rw [hfield]; rfl
    refine ⟨raw, hraw, ?_⟩
    cases rep with
    | object fields => simp [readEnvelope, hrep, member, hok, herr, JsValue.truthy, seen]
    | _ => cases hok
  | error m =>
    obtain ⟨raw, rep, hraw, hrep, hfield⟩ := h.reply [("err", m)] (by simp)
    have hok : rep.field? "ok" = none := by rw [hfield]; rfl
    have herr : rep.field? "err" = some (.string m) := by rw [hfield]; rfl
    refine ⟨raw, hraw, ?_⟩
    cases rep with
    | object fields => simp [readEnvelope, hrep, member, hok, herr, JsValue.truthy, seen, ite_not]
    | _ => cases herr

/-- What a dispatched call looks like from JavaScript: the outcome of the dispatcher, but
for an error with an empty text. -/
theorem sapphillonDispatch_eq (h : ExactOnStrings serde js) (dispatcher : PluginDispatcher Ctx)
    (time : Nat) (opKey argsJson : String) :
    sapphillonDispatch serde js dispatcher time opKey argsJson =
      let r := dispatcher.callFn time dispatcher.ctx opKey argsJson
      if r = .error "" then .returned .undefined else seen r := by
  obtain ⟨raw, hraw, hread⟩ :=
    readEnvelope_reply h (dispatcher.callFn time dispatcher.ctx opKey argsJson)
  rw [sapphillonDispatch, host_result h, hraw]
  exact hread

/-- The JavaScript caller sees the outcome of the dispatcher exactly when that is not an
error with an empty text. -/
theorem envelope_exact_iff (h : ExactOnStrings serde js) (dispatcher : PluginDispatcher Ctx)
    (time : Nat) (opKey argsJson : String) :
    sapphillonDispatch serde js dispatcher time opKey argsJson =
        seen (dispatcher.callFn time dispatcher.ctx opKey argsJson) ↔
      dispatcher.callFn time dispatcher.ctx opKey argsJson ≠ .error "" := by
  rw [sapphillonDispatch_eq h]
  by_cases hr : dispatcher.callFn time dispatcher.ctx opKey argsJson = .error ""
  · simp [hr, seen]
  · simp [hr]

/-! ### A pair of codecs -/

def textSerde : Serde := { sampleSerde with value := readValue, ofValue := writeValue }

def textJs : JsJson where
  stringify j := (writeValue j).toOption.getD "null"
  parse := readValue

theorem exactOnStrings_text : ExactOnStrings textSerde textJs where
  request fields _ := by
    refine ⟨Json.stringObject fields, ?_, fun _ => rfl⟩
    change readValue ((writeValue (Json.stringObject fields)).toOption.getD "null") = _
    rw [writeValue_stringObject]
    exact readValue_writeObject fields
  reply fields _ :=
    ⟨writeObject fields, Json.stringObject fields, writeValue_stringObject fields,
      readValue_writeObject fields, fun _ => rfl⟩

theorem envelope_exact_empty_ok :
    sapphillonDispatch textSerde textJs (⟨(), fun _ _ _ _ => .ok ""⟩ : PluginDispatcher Unit) 0
      "files::read" "\x7b\x7d" = .returned (.json (.string "")) :=
  (envelope_exact_iff exactOnStrings_text ⟨(), fun _ _ _ _ => .ok ""⟩ 0 "files::read"
    "\x7b\x7d").mpr (by simp)

/-- A handler that fails with an empty text looks to the script like a call that returned
`undefined`. -/
theorem envelope_drops_empty_error :
    let ctx : DispatchCtx := ⟨[("f", ⟨"f", "f", fun _ _ => .error "", none⟩)], [], []⟩
    let dispatcher : PluginDispatcher DispatchCtx := ⟨ctx, dispatchCall sampleWorld⟩
    dispatcher.callFn 0 ctx "f" "\x7b\x7d" = .error "" ∧
      sapphillonDispatch textSerde textJs dispatcher 0 "f" "\x7b\x7d" ≠
        .threwError (.json (.string "")) := by
  intro ctx dispatcher
  have hcall : dispatcher.callFn 0 ctx "f" "\x7b\x7d" = .error "" := rfl
  have hgone := sapphillonDispatch_eq exactOnStrings_text dispatcher 0 "f" "\x7b\x7d"
  rw [if_pos hcall] at hgone
  exact ⟨hcall, by simp [hgone]⟩

end Sapphillon.Envelope
