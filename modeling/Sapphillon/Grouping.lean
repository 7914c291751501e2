import Mathlib.Data.List.Perm.Basic
import Mathlib.Data.List.Nodup

/-! A list regrouped by a key: for each key of a list of keys, the elements with that key, in
order. And one list under two tests. -/
namespace Sapphillon.Grouping
variable {α κ : Type*} [DecidableEq κ] (f : α → κ)

def group (k : κ) (l : List α) : List α := l.filter fun a => f a == k

def regroup (keys : List κ) (l : List α) : List α := keys.flatMap fun k => group f k l

variable {f}

theorem mem_group {k : κ} {l : List α} {a : α} : a ∈ group f k l ↔ a ∈ l ∧ f a = k := by
  simp [group]

theorem mem_regroup {keys : List κ} {l : List α} {a : α} :
    a ∈ regroup f keys l ↔ a ∈ l ∧ f a ∈ keys := by
  simp only [regroup, List.mem_flatMap, mem_group]
  constructor
  · intro h
    obtain ⟨k, hk, ha, rfl⟩ := h
    exact ⟨ha, hk⟩
  · intro h
    exact ⟨f a, h.2, h.1, rfl⟩

theorem group_group_of_ne {k k' : κ} (h : k ≠ k') (l : List α) : group f k (group f k' l) = [] := by
  refine List.filter_eq_nil_iff.mpr fun _ ha hk => h ?_
  exact (beq_iff_eq.mp hk).symm.trans (mem_group.mp ha).2

theorem group_self (k : κ) (l : List α) : group f k (group f k l) = group f k l :=
  List.filter_eq_self.mpr fun _ ha => beq_iff_eq.mpr (mem_group.mp ha).2

theorem group_regroup_of_not_mem {keys : List κ} {k : κ} (h : k ∉ keys) (l : List α) :
    group f k (regroup f keys l) = [] := by
  refine List.filter_eq_nil_iff.mpr fun a ha hk => h ?_
  exact beq_iff_eq.mp hk ▸ (mem_regroup.mp ha).2

/-- The groups of a regrouped list are those of the list. -/
theorem group_regroup {keys : List κ} (hkeys : keys.Nodup) {k : κ} (hk : k ∈ keys) (l : List α) :
    group f k (regroup f keys l) = group f k l := by
  induction keys with
  | nil => cases hk
  | cons k' keys ih =>
    obtain ⟨hnot, hkeys⟩ := List.nodup_cons.mp hkeys
    have happend : group f k (regroup f (k' :: keys) l) =
        group f k (group f k' l) ++ group f k (regroup f keys l) := List.filter_append _ _
    rw [happend]
    cases List.mem_cons.mp hk with
    | inl he =>
      subst he
      rw [group_self, group_regroup_of_not_mem hnot, List.append_nil]
    | inr hk =>
      have hne : k ≠ k' := fun he => hnot (he ▸ hk)
      rw [group_group_of_ne hne, List.nil_append, ih hkeys hk]

theorem regroup_idem {keys : List κ} (hkeys : keys.Nodup) (l : List α) :
    regroup f keys (regroup f keys l) = regroup f keys l :=
  List.flatMap_congr fun _ hk => group_regroup hkeys hk l

theorem count_regroup [DecidableEq α] {keys : List κ} (hkeys : keys.Nodup) {a : α}
    (ha : f a ∈ keys) (l : List α) : (regroup f keys l).count a = l.count a := by
  have hgroup (m : List α) : (group f (f a) m).count a = m.count a :=
    List.count_filter (beq_self_eq_true (f a))
  rw [← hgroup (regroup f keys l), group_regroup hkeys ha, hgroup]

theorem group_perm (k : κ) {l l' : List α} (h : l.Perm l') : (group f k l).Perm (group f k l') :=
  h.filter _

theorem regroup_perm (keys : List κ) {l l' : List α} (h : l.Perm l') :
    (regroup f keys l).Perm (regroup f keys l') :=
  List.Perm.flatMap_left keys fun k _ => group_perm k h

/-! ### Two tests on one list -/

theorem filterMap_ite {β : Type*} (p : α → Bool) (f : α → β) (l : List α) :
    l.filterMap (fun a => if p a then some (f a) else none) = (l.filter p).map f := by
  induction l with
  | nil => rfl
  | cons a l ih => by_cases h : p a = true <;> simp [h, ih]

/-- Under a weaker test a list keeps the same elements exactly when each kept element passes
the stronger test. -/
theorem map_filter_eq_iff {β : Type*} {p q : α → Bool} (h : ∀ a, q a = true → p a = true)
    (f : α → β) (l : List α) :
    (l.filter p).map f = (l.filter q).map f ↔ ∀ a ∈ l, p a = true → q a = true := by
  constructor
  · intro he a ha hp
    have hlen : (l.filter q).length = (l.filter p).length := by
      simpa using (congrArg List.length he).symm
    have hlist : l.filter q = l.filter p := (l.monotone_filter_right h).eq_of_length hlen
    have hmem : a ∈ l.filter q := hlist ▸ List.mem_filter.mpr ⟨ha, hp⟩
    exact (List.mem_filter.mp hmem).2
  · intro hall
    have hlist : l.filter p = l.filter q :=
      List.filter_congr fun a ha => Bool.eq_iff_iff.mpr ⟨hall a ha, h a⟩
    rw [hlist]

end Sapphillon.Grouping
