import Mathlib.Data.List.Infix

/-! Traces in which every element is justified by what stands before it: a policy on single
elements, or a protocol that wants other elements first. -/
namespace Sapphillon.TraceGuard
variable {E : Type} {G : List E → E → Prop}

/-- Every element of a trace is justified by the elements before it. -/
def Guarded (G : List E → E → Prop) (l : List E) : Prop :=
  ∀ before e after, l = before ++ e :: after → G before e

/-- A longer past does not take a justification away. -/
def Stable (G : List E → E → Prop) : Prop :=
  ∀ past before e, G before e → G (past ++ before) e

theorem guarded_nil : Guarded G [] := by
  intro before e after h
  simp at h

/-- The last element of a trace has the rest of it before it. -/
theorem guarded_concat {l : List E} {e : E} :
    Guarded G (l ++ [e]) ↔ Guarded G l ∧ G l e := by
  constructor
  · intro h
    refine ⟨fun before x after hl => ?_, h l e [] rfl⟩
    exact h before x (after ++ [e]) (by simp [hl])
  · intro h before x after hl
    obtain ⟨hguarded, hlast⟩ := h
    cases List.eq_nil_or_concat after with
    | inl hnil =>
      rw [hnil] at hl
      obtain ⟨rfl, he⟩ := List.append_inj' hl rfl
      rw [← List.singleton_inj.mp he]
      exact hlast
    | inr hsome =>
      obtain ⟨after', y, rfl⟩ := hsome
      have hcut : l ++ [e] = (before ++ x :: after') ++ [y] := by simpa using hl
      obtain ⟨hl', _⟩ := List.append_inj' hcut rfl
      exact hguarded before x after' hl'

theorem guarded_singleton {e : E} : Guarded G [e] ↔ G [] e := by
  have h := guarded_concat (G := G) (l := []) (e := e)
  simpa [guarded_nil] using h

/-- Guarded traces one after the other are one guarded trace. -/
theorem Guarded.append (hstable : Stable G) {l l' : List E} (h : Guarded G l)
    (h' : Guarded G l') : Guarded G (l ++ l') := by
  induction l' using List.reverseRecOn with
  | nil => simpa using h
  | append_singleton l' e ih =>
    obtain ⟨hl', he⟩ := guarded_concat.mp h'
    rw [← List.append_assoc]
    exact guarded_concat.mpr ⟨ih hl', hstable l l' e he⟩

/-- A guard that does not look at the past is a property of all elements. -/
theorem guarded_forall {P : E → Prop} {l : List E} :
    Guarded (fun _ e => P e) l ↔ ∀ e ∈ l, P e := by
  constructor
  · intro h e he
    obtain ⟨before, after, rfl⟩ := List.append_of_mem he
    exact h before e after rfl
  · intro h before e after hl
    exact h e (by simp [hl])

theorem stable_forall {P : E → Prop} : Stable fun (_ : List E) e => P e :=
  fun _ _ _ h => h

end Sapphillon.TraceGuard
