import Mathlib.Control.Basic

/-! Computations that leave a trace of the effects they performed, also when they fail. -/
namespace Sapphillon

structure Traced (E ε α : Type) where
  events : List E
  result : Except ε α

namespace Traced
variable {E E' ε ε' α β : Type}

@[simp] theorem mapError_eq_ok {r : Except ε α} {f : ε → ε'} {a : α} :
    r.mapError f = .ok a ↔ r = .ok a := by
  cases r <;> simp [Except.mapError]

@[simp] theorem mapError_eq_error {r : Except ε α} {f : ε → ε'} {e' : ε'} :
    r.mapError f = .error e' ↔ ∃ e, r = .error e ∧ f e = e' := by
  cases r <;> simp [Except.mapError]

theorem ext {x y : Traced E ε α} (he : x.events = y.events) (hr : x.result = y.result) :
    x = y := by
  cases x
  cases y
  cases he
  cases hr
  rfl

/-- The second part runs, and adds its events, only when the first part succeeded. -/
def bind (x : Traced E ε α) (f : α → Traced E ε β) : Traced E ε β :=
  match x.result with
  | .error e => ⟨x.events, .error e⟩
  | .ok a => ⟨x.events ++ (f a).events, (f a).result⟩

instance : Monad (Traced E ε) where
  pure a := ⟨[], .ok a⟩
  bind := bind

def emit (e : E) : Traced E ε Unit := ⟨[e], .ok ()⟩

def lift (r : Except ε α) : Traced E ε α := ⟨[], r⟩

def mapError (f : ε → ε') (x : Traced E ε α) : Traced E ε' α := ⟨x.events, x.result.mapError f⟩

def mapEvents (f : E → E') (x : Traced E ε α) : Traced E' ε α := ⟨x.events.map f, x.result⟩

/-- The outcome as a value: a failure does not stop what comes behind. -/
def attempt (x : Traced E ε α) : Traced E ε' (Except ε α) := ⟨x.events, .ok x.result⟩

@[simp] theorem events_pure (a : α) : (pure a : Traced E ε α).events = [] := rfl
@[simp] theorem result_pure (a : α) : (pure a : Traced E ε α).result = .ok a := rfl
@[simp] theorem events_emit (e : E) : (emit e : Traced E ε Unit).events = [e] := rfl
@[simp] theorem result_emit (e : E) : (emit e : Traced E ε Unit).result = .ok () := rfl
@[simp] theorem events_lift (r : Except ε α) : (lift r : Traced E ε α).events = [] := rfl
@[simp] theorem result_lift (r : Except ε α) : (lift r : Traced E ε α).result = r := rfl

@[simp] theorem events_mapError (f : ε → ε') (x : Traced E ε α) :
    (x.mapError f).events = x.events := rfl
@[simp] theorem result_mapError (f : ε → ε') (x : Traced E ε α) :
    (x.mapError f).result = x.result.mapError f := rfl
@[simp] theorem events_mapEvents (f : E → E') (x : Traced E ε α) :
    (x.mapEvents f).events = x.events.map f := rfl
@[simp] theorem result_mapEvents (f : E → E') (x : Traced E ε α) :
    (x.mapEvents f).result = x.result := rfl
@[simp] theorem events_attempt (x : Traced E ε α) :
    (x.attempt : Traced E ε' (Except ε α)).events = x.events := rfl
@[simp] theorem result_attempt (x : Traced E ε α) :
    (x.attempt : Traced E ε' (Except ε α)).result = .ok x.result := rfl

theorem bind_error {x : Traced E ε α} {e : ε} (f : α → Traced E ε β) (h : x.result = .error e) :
    x >>= f = ⟨x.events, .error e⟩ := by
  change bind x f = _
  rw [bind, h]

theorem bind_ok {x : Traced E ε α} {a : α} (f : α → Traced E ε β) (h : x.result = .ok a) :
    x >>= f = ⟨x.events ++ (f a).events, (f a).result⟩ := by
  change bind x f = _
  rw [bind, h]

@[simp] theorem lift_ok_bind (a : α) (f : α → Traced E ε β) : lift (.ok a) >>= f = f a :=
  bind_ok f rfl

@[simp] theorem lift_error_bind (e : ε) (f : α → Traced E ε β) :
    lift (.error e) >>= f = ⟨[], .error e⟩ := bind_error f rfl

theorem result_bind (x : Traced E ε α) (f : α → Traced E ε β) :
    (x >>= f).result = x.result.bind fun a => (f a).result := by
  cases h : x.result with
  | error e => rw [bind_error f h]; rfl
  | ok a => rw [bind_ok f h]; rfl

/-- A last step without events leaves the trace as it is. -/
theorem events_bind_lift (x : Traced E ε α) (f : α → Except ε β) :
    (x >>= fun a => lift (f a)).events = x.events := by
  cases h : x.result with
  | error e => rw [bind_error _ h]
  | ok a => simp [bind_ok _ h]

theorem length_events_lift_bind (r : Except ε α) {f : α → Traced E ε β} {n : Nat}
    (h : ∀ a, (f a).events.length ≤ n) : (lift r >>= f).events.length ≤ n := by
  cases r with
  | error e => exact Nat.zero_le n
  | ok a => simpa using h a

theorem length_events_emit_bind (e : E) {f : Unit → Traced E ε β} {n : Nat}
    (h : (f ()).events.length ≤ n) : (emit e >>= f).events.length ≤ n + 1 := by
  rw [bind_ok f (result_emit e)]
  simpa using h

/-- An event of a sequence happened in its first part, or in the second part behind a
first part that succeeded. -/
theorem mem_bind {x : Traced E ε α} {f : α → Traced E ε β} {e : E} :
    e ∈ (x >>= f).events ↔ e ∈ x.events ∨ ∃ a, x.result = .ok a ∧ e ∈ (f a).events := by
  cases h : x.result with
  | error e' => simp [bind_error f h]
  | ok a => simp [bind_ok f h]

theorem bind_eq_ok {x : Traced E ε α} {f : α → Traced E ε β} {b : β} :
    (x >>= f).result = .ok b ↔ ∃ a, x.result = .ok a ∧ (f a).result = .ok b := by
  cases h : x.result with
  | error e' => simp [bind_error f h]
  | ok a => simp [bind_ok f h]

/-- A sequence fails in its first part, or in the second part behind a first part that
succeeded. -/
theorem bind_eq_error {x : Traced E ε α} {f : α → Traced E ε β} {e : ε} :
    (x >>= f).result = .error e ↔
      x.result = .error e ∨ ∃ a, x.result = .ok a ∧ (f a).result = .error e := by
  cases h : x.result with
  | error e' => simp [bind_error f h]
  | ok a => simp [bind_ok f h]

end Traced
end Sapphillon
