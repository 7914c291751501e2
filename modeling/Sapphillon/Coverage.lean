import Mathlib.Order.RelClasses
import Mathlib.Data.Set.Finite.List
import Mathlib.Order.WellFounded
import Mathlib.Data.List.Basic

/-! Lists compared by a transitive coverage relation on their elements, and what is lost
when every element that a different element covers is dropped at once. -/
namespace Sapphillon.Coverage
variable {α : Type*} (R : α → α → Prop)

/-- Every element of `r` is covered by an element of `g`. -/
def CoversAll (g r : List α) : Prop := ∀ x ∈ r, ∃ p ∈ g, R p x

/-- No other element of `g` covers `p`. -/
def Undominated (g : List α) (p : α) : Prop := ∀ q ∈ g, q ≠ p → ¬ R q p

variable {R}

/-- The nested loop over two lists, with its two early answers, decides coverage. -/
theorem all_any_iff (f : α → α → Bool) (a b : List α) :
    (if b.isEmpty then true else if a.isEmpty then false
      else b.all fun y => a.any fun x => f x y) = true ↔
      CoversAll (fun x y => f x y = true) a b := by
  unfold CoversAll
  cases b with
  | nil => simp
  | cons y b =>
    cases a with
    | nil => exact iff_of_false (by simp) fun h => by simpa using h y List.mem_cons_self
    | cons x a => simp

theorem coversAll_refl {p : List α} (h : ∀ x ∈ p, R x x) : CoversAll R p p :=
  fun x hx => ⟨x, hx, h x hx⟩

/-- What a list leaves uncovered, added to it, covers the rest. -/
theorem coversAll_append {g m r : List α} (h : ∀ x ∈ r, x ∉ m → ∃ p ∈ g, R p x)
    (hrefl : ∀ x ∈ m, R x x) : CoversAll R (g ++ m) r := by
  intro x hx
  by_cases hm : x ∈ m
  · exact ⟨x, List.mem_append_right g hm, hrefl x hm⟩
  · obtain ⟨p, hp, hc⟩ := h x hx hm
    exact ⟨p, List.mem_append_left m hp, hc⟩

theorem Undominated.mono {g g' : List α} {p : α} (h : Undominated R g p)
    (hsub : ∀ q ∈ g', q ∈ g) : Undominated R g' p := fun q hq => h q (hsub q hq)

/-! ### The undominated elements of a list -/

section Survivors
variable [DecidableEq α] [DecidableRel R]

variable (R) in
/-- The elements no other element covers, in order and as often as they occur. -/
def survivors (g : List α) : List α := g.filter fun p => g.all fun q => q == p || !decide (R q p)

theorem all_iff_undominated (g : List α) (p : α) :
    (g.all fun q => q == p || !decide (R q p)) = true ↔ Undominated R g p := by
  simp only [List.all_eq_true, Bool.or_eq_true, beq_iff_eq, Bool.not_eq_true', decide_eq_false_iff_not,
    Undominated, or_iff_not_imp_left, ne_eq]

theorem mem_survivors {g : List α} {p : α} : p ∈ survivors R g ↔ p ∈ g ∧ Undominated R g p := by
  rw [survivors, List.mem_filter, all_iff_undominated]

/-- Undominated elements all survive. -/
theorem survivors_eq_self {g : List α} (h : ∀ p ∈ g, Undominated R g p) : survivors R g = g :=
  List.filter_eq_self.mpr fun p hp => (all_iff_undominated g p).mpr (h p hp)

theorem count_survivors {g : List α} {p : α} (h : Undominated R g p) :
    (survivors R g).count p = g.count p :=
  List.count_filter ((all_iff_undominated g p).mpr h)

/-- Another order of a list changes the order of its survivors only. -/
theorem survivors_perm {g g' : List α} (h : g.Perm g') : (survivors R g).Perm (survivors R g') := by
  have hall : (fun p => g.all fun q => q == p || !decide (R q p)) =
      fun p => g'.all fun q => q == p || !decide (R q p) :=
    funext fun p => h.all_eq
  rw [survivors, survivors, hall]
  exact h.filter _

end Survivors

section Transitive
variable [IsTrans α R]

theorem coversAll_trans {a b c : List α} (hab : CoversAll R a b) (hbc : CoversAll R b c) :
    CoversAll R a c := by
  intro x hx
  obtain ⟨y, hy, hyx⟩ := hbc x hx
  obtain ⟨z, hz, hzy⟩ := hab y hy
  exact ⟨z, hz, IsTrans.trans _ _ _ hzy hyx⟩

/-- Lists that cover each other are the lists that cover the same lists. -/
theorem coversAll_both_iff (hrefl : ∀ x, R x x) (a b : List α) :
    CoversAll R a b ∧ CoversAll R b a ↔ ∀ c, CoversAll R a c ↔ CoversAll R b c := by
  constructor
  · intro h c
    exact ⟨coversAll_trans h.2, coversAll_trans h.1⟩
  · intro h
    exact ⟨(h b).mpr (coversAll_refl fun x _ => hrefl x),
      (h a).mp (coversAll_refl fun x _ => hrefl x)⟩

/-- Covering without being covered back. -/
def Strict (R : α → α → Prop) (q p : α) : Prop := R q p ∧ ¬ R p q

theorem strict_trans {a b c : α} (hab : Strict R a b) (hbc : Strict R b c) : Strict R a c :=
  ⟨IsTrans.trans _ _ _ hab.1 hbc.1, fun hca => hab.2 (IsTrans.trans _ _ _ hbc.1 hca)⟩

/-- Above every element of a list lies one that everything above it equals in coverage. -/
theorem exists_maximal_above {g : List α} {p : α} (hp : p ∈ g) :
    ∃ m ∈ g, (m = p ∨ R m p) ∧ ∀ q ∈ g, R q m → R m q := by
  let S : {x // x ∈ g} → {x // x ∈ g} → Prop := fun a b => Strict R a.1 b.1
  have : IsTrans _ S := ⟨fun _ _ _ => strict_trans⟩
  have : Std.Irrefl S := ⟨fun _ h => h.2 h.1⟩
  have : Finite {x // x ∈ g} := List.finite_toSet g
  obtain ⟨m, hm, hmin⟩ := (Finite.wellFounded_of_trans_of_irrefl S).has_min
    {m | m.1 = p ∨ R m.1 p} ⟨⟨p, hp⟩, Or.inl rfl⟩
  refine ⟨m.1, m.2, hm, fun q hq hqm => ?_⟩
  by_contra hmq
  have habove : q = p ∨ R q p := by
    cases hm with
    | inl hm => exact Or.inr (hm ▸ hqm)
    | inr hm => exact Or.inr (IsTrans.trans _ _ _ hqm hm)
  exact hmin ⟨q, hq⟩ habove ⟨hqm, hmq⟩

/-- Dropping every dominated element at once keeps the coverage of a list, on a class that
coverage does not leave, exactly when each element of the class with an equal in coverage
also lies strictly below something. -/
theorem undominated_covers_iff (g : List α) {C : α → Prop}
    (hC : ∀ p ∈ g, ∀ x, R p x → (C p ↔ C x)) :
    (∀ x, C x → (∃ p ∈ g, R p x) → ∃ p ∈ g, Undominated R g p ∧ R p x) ↔
      ∀ p ∈ g, C p → (∃ q ∈ g, q ≠ p ∧ R q p ∧ R p q) → ∃ q ∈ g, Strict R q p := by
  constructor
  · intro h p hp hCp halias
    obtain ⟨q, hq, hne, hqp, hpq⟩ := halias
    obtain ⟨m, hm, hmax, hmp⟩ := h p hCp ⟨p, hp, IsTrans.trans _ _ _ hpq hqp⟩
    refine ⟨m, hm, hmp, fun hpm => ?_⟩
    by_cases he : p = m
    · exact hmax q hq (he ▸ hne) (he ▸ hqp)
    · exact hmax p hp he hpm
  · intro h x hCx hcov
    obtain ⟨p, hp, hpx⟩ := hcov
    obtain ⟨m, hm, hmp, hmax⟩ := exists_maximal_above (R := R) hp
    have hmx : R m x := by
      cases hmp with
      | inl hmp => exact hmp ▸ hpx
      | inr hmp => exact IsTrans.trans _ _ _ hmp hpx
    refine ⟨m, hm, fun q hq hne hqm => ?_, hmx⟩
    obtain ⟨t, ht, htm, hmt⟩ := h m hm ((hC m hm x hmx).mpr hCx) ⟨q, hq, hne, hqm, hmax q hq hqm⟩
    exact hmt (hmax t ht htm)

theorem undominated_covers_all_iff (g : List α) :
    (∀ x, (∃ p ∈ g, R p x) → ∃ p ∈ g, Undominated R g p ∧ R p x) ↔
      ∀ p ∈ g, (∃ q ∈ g, q ≠ p ∧ R q p ∧ R p q) → ∃ q ∈ g, Strict R q p := by
  have h := undominated_covers_iff (R := R) g (C := fun _ => True) fun _ _ _ _ => Iff.rfl
  simpa only [true_implies] using h

end Transitive
end Sapphillon.Coverage
