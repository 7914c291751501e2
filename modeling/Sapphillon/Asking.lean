import Mathlib.Control.Basic

/-! Computations that ask their surroundings and go on with the answer, and their runs in
surroundings that have a state and may fail to answer. -/
namespace Sapphillon

/-- The type of the answer is a matter of the question. -/
inductive Asking {Q : Type} (R : Q → Type) (ε α : Type) where
  | done (r : Except ε α)
  | ask (q : Q) (resume : R q → Asking R ε α)

namespace Asking
variable {Q : Type} {R : Q → Type} {ε φ S α β γ : Type}

def bind : Asking R ε α → (α → Asking R ε β) → Asking R ε β
  | .done (.ok a), f => f a
  | .done (.error e), _ => .done (.error e)
  | .ask q resume, f => .ask q fun r => bind (resume r) f

instance : Monad (Asking R ε) where
  pure a := .done (.ok a)
  bind := bind

def lift (r : Except ε α) : Asking R ε α := .done r

def stop (e : ε) : Asking R ε α := .done (.error e)

def query (q : Q) : Asking R ε (R q) := .ask q fun r => .done (.ok r)

@[simp] theorem lift_ok (a : α) : (lift (.ok a) : Asking R ε α) = pure a := rfl

@[simp] theorem lift_error (e : ε) : (lift (.error e) : Asking R ε α) = stop e := rfl

@[simp] theorem stop_bind (e : ε) (f : α → Asking R ε β) : stop e >>= f = stop e := rfl

@[simp] theorem map_stop (f : α → β) (e : ε) : f <$> (stop e : Asking R ε α) = stop e := rfl

theorem ask_bind (q : Q) (resume : R q → Asking R ε α) (f : α → Asking R ε β) :
    .ask q resume >>= f = .ask q fun r => resume r >>= f := rfl

theorem bind_pure_comp' (x : Asking R ε α) : x >>= pure = x := by
  induction x with
  | done r => cases r <;> rfl
  | ask q resume ih => rw [ask_bind, funext ih]

theorem bind_assoc' (x : Asking R ε α) (f : α → Asking R ε β) (g : β → Asking R ε γ) :
    x >>= f >>= g = x >>= fun a => f a >>= g := by
  induction x with
  | done r => cases r <;> rfl
  | ask q resume ih => rw [ask_bind, ask_bind, ask_bind, funext ih]

instance : LawfulMonad (Asking R ε) :=
  LawfulMonad.mk' (Asking R ε) bind_pure_comp' (fun _ _ => rfl) bind_assoc'

/-! ### Runs -/

section Play
variable (answer : (q : Q) → S → Except φ (R q) × S)

/-- A run from a state of the surroundings: the outcome, a failure of the surroundings apart,
and the state behind it. -/
def play : Asking R ε α → S → Except (ε ⊕ φ) α × S
  | .done r, s => (r.mapError .inl, s)
  | .ask q resume, s =>
    match answer q s with
    | (.ok r, s') => play (resume r) s'
    | (.error e, s') => (.error (.inr e), s')

variable {answer}

theorem play_ask_ok {q : Q} {resume : R q → Asking R ε α} {s s' : S} {r : R q}
    (h : answer q s = (.ok r, s')) :
    play answer (.ask q resume) s = play answer (resume r) s' := by
  rw [play, h]

theorem play_ask_error {q : Q} {resume : R q → Asking R ε α} {s s' : S} {e : φ}
    (h : answer q s = (.error e, s')) :
    play answer (.ask q resume) s = (.error (.inr e), s') := by
  rw [play, h]

/-- The second part runs where the first part left the surroundings. -/
theorem play_bind_ok {x : Asking R ε α} {f : α → Asking R ε β} {s s' : S} {a : α}
    (h : play answer x s = (.ok a, s')) : play answer (x >>= f) s = play answer (f a) s' := by
  induction x generalizing s with
  | done r =>
    cases r with
    | ok b =>
      obtain ⟨hb, rfl⟩ := Prod.mk.inj h
      obtain rfl := Except.ok.inj hb
      rfl
    | error e => cases (Prod.mk.inj h).1
  | ask q resume ih =>
    cases hq : answer q s with
    | mk r t =>
      cases r with
      | ok r =>
        rw [play_ask_ok hq] at h
        rw [ask_bind, play_ask_ok hq, ih r h]
      | error e =>
        rw [play_ask_error hq] at h
        cases (Prod.mk.inj h).1

theorem play_bind_error {x : Asking R ε α} {f : α → Asking R ε β} {s s' : S} {e : ε ⊕ φ}
    (h : play answer x s = (.error e, s')) : play answer (x >>= f) s = (.error e, s') := by
  induction x generalizing s with
  | done r =>
    cases r with
    | ok b => cases (Prod.mk.inj h).1
    | error e' =>
      obtain ⟨he, rfl⟩ := Prod.mk.inj h
      obtain rfl := Except.error.inj he
      rfl
  | ask q resume ih =>
    cases hq : answer q s with
    | mk r t =>
      cases r with
      | ok r =>
        rw [play_ask_ok hq] at h
        rw [ask_bind, play_ask_ok hq, ih r h]
      | error e' =>
        rw [play_ask_error hq] at h
        obtain ⟨he, rfl⟩ := Prod.mk.inj h
        obtain rfl := Except.error.inj he
        rw [ask_bind, play_ask_error hq]

end Play
end Asking
end Sapphillon
