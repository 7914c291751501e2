import Mathlib.Data.List.Infix

/-! Runs of a step function that may fail: how they compose, what they preserve, and when
they go through. -/
namespace Sapphillon.StepRun
variable {σ α ε : Type} {step : σ → α → Except ε σ} {s u : σ} {l l' : List α}

def exec (step : σ → α → Except ε σ) (s : σ) (l : List α) : Except ε σ := l.foldlM step s

theorem exec_cons_eq_ok {a : α} :
    exec step s (a :: l) = .ok u ↔ ∃ t, step s a = .ok t ∧ exec step t l = .ok u := by
  rw [exec, List.foldlM_cons]
  cases h : step s a with
  | error e => simp [bind, Except.bind]
  | ok t => simp [bind, Except.bind, exec]

theorem exec_append_eq_ok :
    exec step s (l ++ l') = .ok u ↔ ∃ t, exec step s l = .ok t ∧ exec step t l' = .ok u := by
  induction l generalizing s with
  | nil => simp [exec, pure, Except.pure]
  | cons a l ih =>
    simp only [List.cons_append, exec_cons_eq_ok, ih]
    constructor
    · intro h
      obtain ⟨t, ha, v, hl, hu⟩ := h
      exact ⟨v, ⟨t, ha, hl⟩, hu⟩
    · intro h
      obtain ⟨v, ⟨t, ha, hl⟩, hu⟩ := h
      exact ⟨t, ha, v, hl, hu⟩

/-- A relation that holds of the empty run and is carried over one step in front holds of
every run. -/
theorem exec_rel {R : σ → List α → σ → Prop} (nil : ∀ s, R s [] s)
    (cons : ∀ s a t l u, step s a = .ok t → R t l u → R s (a :: l) u)
    (h : exec step s l = .ok u) : R s l u := by
  induction l generalizing s with
  | nil =>
    obtain rfl : s = u := Except.ok.inj h
    exact nil s
  | cons a l ih =>
    obtain ⟨t, ha, hl⟩ := exec_cons_eq_ok.mp h
    exact cons s a t l u ha (ih hl)

/-- What holds of the start with no history and is carried over one step behind a history
holds of every run and its history. -/
theorem exec_history {I : List α → σ → Prop} (nil : I [] s)
    (snoc : ∀ l a t u, I l t → step t a = .ok u → I (l ++ [a]) u)
    (h : exec step s l = .ok u) : I l u := by
  induction l using List.reverseRecOn generalizing u with
  | nil =>
    obtain rfl : s = u := Except.ok.inj h
    exact nil
  | append_singleton l a ih =>
    obtain ⟨t, ht, ha⟩ := exec_append_eq_ok.mp h
    obtain ⟨v, hv, hu⟩ := exec_cons_eq_ok.mp ha
    obtain rfl : v = u := Except.ok.inj hu
    exact snoc l a t v (ih ht) hv

/-- A run goes through exactly when each of its steps is enabled where it is taken. -/
theorem exec_ok_iff {Enabled : List α → α → Prop}
    (henabled : ∀ before t a, exec step s before = .ok t →
      ((∃ u, step t a = .ok u) ↔ Enabled before a)) :
    (∃ u, exec step s l = .ok u) ↔ ∀ before a, before ++ [a] <+: l → Enabled before a := by
  induction l using List.reverseRecOn with
  | nil => exact iff_of_true ⟨s, rfl⟩ fun before a h => by simp at h
  | append_singleton l b ih =>
    have hlast : (∃ u, exec step s (l ++ [b]) = .ok u) ↔
        (∃ t, exec step s l = .ok t) ∧ Enabled l b := by
      constructor
      · intro hrun
        obtain ⟨u, hu⟩ := hrun
        obtain ⟨t, ht, hb⟩ := exec_append_eq_ok.mp hu
        obtain ⟨v, hv, _⟩ := exec_cons_eq_ok.mp hb
        exact ⟨⟨t, ht⟩, (henabled l t b ht).mp ⟨v, hv⟩⟩
      · intro hboth
        obtain ⟨⟨t, ht⟩, hb⟩ := hboth
        obtain ⟨v, hv⟩ := (henabled l t b ht).mpr hb
        exact ⟨v, exec_append_eq_ok.mpr ⟨t, ht, exec_cons_eq_ok.mpr ⟨v, hv, rfl⟩⟩⟩
    rw [hlast, ih]
    constructor
    · intro hboth before a hpre
      obtain ⟨h, hb⟩ := hboth
      cases List.prefix_concat_iff.mp hpre with
      | inl he =>
        obtain ⟨rfl, ha⟩ := List.append_inj' he rfl
        rw [List.cons.inj ha |>.1]
        exact hb
      | inr hpre => exact h before a hpre
    · intro h
      exact ⟨fun before a hpre => h before a (hpre.trans (List.prefix_append l [b])),
        h l b (List.prefix_refl _)⟩

end Sapphillon.StepRun
