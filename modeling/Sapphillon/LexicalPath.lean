import Mathlib.Data.List.Basic
import Mathlib.Data.List.Infix
import Mathlib.Data.Set.Subsingleton

/-! Lexical resolution of paths over an arbitrary type of names. A path is a word of
climbs and descents; a walk rewrites the list of names from the root to the current
place, and a climb at the root stays at the root. -/
namespace Sapphillon.LexicalPath
variable {α : Type*}

inductive Step (α : Type*) where
  | up
  | down (name : α)
deriving DecidableEq, Repr

def walk (base : List α) : List (Step α) → List α
  | [] => base
  | .up :: s => walk base.dropLast s
  | .down a :: s => walk (base ++ [a]) s

/-- The names a word leaves when it is walked from the root. -/
def residue (s : List (Step α)) : List α := walk [] s

/-- Climbs that find nothing to remove when `n` names are held at the start. -/
def overrun : Nat → List (Step α) → Nat
  | _, [] => 0
  | 0, .up :: s => overrun 0 s + 1
  | n+1, .up :: s => overrun n s
  | n, .down _ :: s => overrun (n+1) s

/-- Climbs of a word above its own start. -/
def escapes (s : List (Step α)) : Nat := overrun 0 s

theorem walk_append (base : List α) (s t : List (Step α)) :
    walk base (s ++ t) = walk (walk base s) t := by
  induction s generalizing base with
  | nil => rfl
  | cons e s ih => cases e <;> exact ih _

theorem walk_down (base names : List α) : walk base (names.map .down) = base ++ names := by
  induction names generalizing base with
  | nil => simp [walk]
  | cons a names ih => simp [walk, ih, List.append_assoc]

theorem residue_down (names : List α) : residue (names.map .down) = names := by
  simpa [residue] using walk_down [] names

theorem residue_append (s t : List (Step α)) : residue (s ++ t) = walk (residue s) t :=
  walk_append [] s t

/-- A walk leaves only names of its base and of its descents. -/
theorem mem_walk {base : List α} {s : List (Step α)} {a : α} (h : a ∈ walk base s) :
    a ∈ base ∨ .down a ∈ s := by
  induction s generalizing base with
  | nil => exact Or.inl h
  | cons e s ih =>
    cases e with
    | up =>
      cases ih h with
      | inl h => exact Or.inl (List.mem_of_mem_dropLast h)
      | inr h => exact Or.inr (List.mem_cons_of_mem _ h)
    | down b =>
      cases ih h with
      | inl h =>
        cases List.mem_append.mp h with
        | inl h => exact Or.inl h
        | inr h => exact Or.inr (by simp [List.mem_singleton.mp h])
      | inr h => exact Or.inr (List.mem_cons_of_mem _ h)

/-- A walk works on the names held in hand and cuts the base only by its overrun. -/
theorem walk_held (base held : List α) (s : List (Step α)) :
    walk (base ++ held) s =
      base.take (base.length - overrun held.length s) ++ walk held s := by
  induction s generalizing base held with
  | nil => simp [walk, overrun]
  | cons e s ih =>
    cases e with
    | down a => simpa [walk, overrun] using ih base (held ++ [a])
    | up =>
      rcases List.eq_nil_or_concat held with rfl | ⟨held, x, rfl⟩
      · have h := ih base.dropLast []
        have hlen : base.length - 1 - overrun 0 s = base.length - (overrun 0 s + 1) := by omega
        simp only [List.append_nil, List.length_nil, List.length_dropLast, hlen] at h
        simp only [walk, overrun, List.append_nil, List.length_nil, h, List.dropLast_nil]
        rw [List.dropLast_eq_take, List.take_take]
        congr 2
        omega
      · have h := ih base held
        simpa [walk, overrun, List.dropLast_append_of_ne_nil] using h

/-- A word denotes, from any base, its residue below the base cut by its escapes. -/
theorem walk_eq (base : List α) (s : List (Step α)) :
    walk base s = base.take (base.length - escapes s) ++ residue s := by
  simpa [residue, escapes] using walk_held base [] s

theorem walk_replicate (n : Nat) (x : α) (s : List (Step α)) :
    walk (List.replicate n x) s = List.replicate (n - escapes s) x ++ residue s := by
  rw [walk_eq]
  simp

theorem not_prefix_of_head {x : α} {u t : List α} (h : t.head? ≠ some x) : ¬ x :: u <+: t := by
  intro hpre
  obtain ⟨v, rfl⟩ := hpre
  exact h rfl

theorem exists_ne_head {S : Set α} (hS : S.Nontrivial) (t : List α) :
    ∃ x ∈ S, t.head? ≠ some x := by
  cases t with
  | nil =>
    obtain ⟨x, hx⟩ := hS.nonempty
    exact ⟨x, hx, by simp⟩
  | cons y t =>
    obtain ⟨x, hx, hxy⟩ := hS.exists_ne y
    exact ⟨x, hx, by simpa using hxy.symm⟩

/-- No fixed place lies below a word under every base. -/
theorem exists_walk_not_prefix {S : Set α} (hS : S.Nontrivial) (a : List (Step α)) (t : List α) :
    ∃ base : List α, (∀ n ∈ base, n ∈ S) ∧ ¬ walk base a <+: t := by
  obtain ⟨x, hx, hne⟩ := exists_ne_head hS t
  refine ⟨List.replicate (escapes a + 1) x, fun n hn => by rwa [List.eq_of_mem_replicate hn], ?_⟩
  rw [walk_replicate, Nat.add_sub_cancel_left]
  exact not_prefix_of_head hne

theorem walk_prefix_of_escapes_eq (base : List α) {a b : List (Step α)}
    (hr : residue a <+: residue b) (he : escapes a = escapes b) : walk base a <+: walk base b := by
  rw [walk_eq, walk_eq, he]
  exact (List.prefix_append_right_inj _).mpr hr

theorem walk_prefix_of_residue_nil (base : List α) {a b : List (Step α)}
    (hr : residue a = []) (he : escapes b ≤ escapes a) : walk base a <+: walk base b := by
  rw [walk_eq, walk_eq, hr, List.append_nil]
  exact (List.take_prefix_take_left (by omega)).trans (List.prefix_append _ _)

/-- One word stays at or above another under every base exactly when they escape equally
and their residues nest, or the upper one only climbs, at least as far. -/
theorem forall_walk_prefix_iff {S : Set α} (hS : S.Nontrivial) (a b : List (Step α)) :
    (∀ base : List α, (∀ n ∈ base, n ∈ S) → walk base a <+: walk base b) ↔
      (escapes a = escapes b ∧ residue a <+: residue b) ∨
        (residue a = [] ∧ escapes b ≤ escapes a) := by
  constructor
  · intro h
    have hrep (n : Nat) (x : α) (hx : x ∈ S) :
        walk (List.replicate n x) a <+: walk (List.replicate n x) b :=
      h _ fun y hy => by rwa [List.eq_of_mem_replicate hy]
    rcases Nat.lt_trichotomy (escapes a) (escapes b) with hlt | heq | hgt
    · obtain ⟨x, hx, hne⟩ := exists_ne_head hS (residue b)
      have hb := hrep (escapes b) x hx
      obtain ⟨k, hk⟩ := Nat.exists_eq_add_of_lt hlt
      rw [walk_replicate, walk_replicate, Nat.sub_self,
        show escapes b - escapes a = k + 1 by omega] at hb
      exact absurd hb (not_prefix_of_head hne)
    · have h0 := h [] fun _ hn => absurd hn (List.not_mem_nil)
      exact Or.inl ⟨heq, h0⟩
    · refine Or.inr ⟨?_, hgt.le⟩
      obtain ⟨x, hx, hne⟩ := exists_ne_head hS (residue a)
      have ha := hrep (escapes a) x hx
      obtain ⟨k, hk⟩ := Nat.exists_eq_add_of_lt hgt
      rw [walk_replicate, walk_replicate, Nat.sub_self,
        show escapes a - escapes b = k + 1 by omega] at ha
      cases hr : residue a with
      | nil => rfl
      | cons y u =>
        rw [hr] at ha hne
        have hyx : y = x := by simpa using List.IsPrefix.head ha (by simp)
        exact absurd (by simp [hyx]) hne
  · intro h base _
    obtain ⟨he, hr⟩ | ⟨hr, he⟩ := h
    · exact walk_prefix_of_escapes_eq base hr he
    · exact walk_prefix_of_residue_nil base hr he

end Sapphillon.LexicalPath
