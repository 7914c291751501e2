import Mathlib.Data.List.Basic

/-! Texts over any alphabet cut at a separator: the pieces of a text, those of them that are
not empty, and what joining the pieces again gives back. -/
namespace Sapphillon.Lines
variable {α : Type*} {sep : α}

theorem intercalate_eq_nil {pieces : List (List α)} :
    [sep].intercalate pieces = [] ↔ pieces = [] ∨ pieces = [[]] := by
  cases pieces with
  | nil => simp
  | cons p pieces => cases pieces <;> simp

theorem intercalate_append {as bs : List (List α)} (ha : as ≠ []) (hb : bs ≠ []) :
    [sep].intercalate (as ++ bs) = [sep].intercalate as ++ sep :: [sep].intercalate bs := by
  induction as with
  | nil => exact absurd rfl ha
  | cons a as ih =>
    cases as with
    | nil => simp [List.intercalate_cons_of_ne_nil hb]
    | cons c as =>
      rw [List.cons_append, List.cons_append, List.intercalate_cons_cons, ← List.cons_append,
        ih (by simp), List.intercalate_cons_cons]
      simp

variable [BEq α]

/-- The pieces between the separators that are not empty. -/
def lines (sep : α) (text : List α) : List (List α) :=
  (text.splitOn sep).filter fun piece => !piece.isEmpty

theorem lines_nil : lines sep ([] : List α) = [] := by simp [lines]

variable [LawfulBEq α]

theorem not_mem_of_mem_splitOn {text piece : List α} (h : piece ∈ text.splitOn sep) :
    sep ∉ piece := by
  induction text generalizing piece with
  | nil => simp_all
  | cons c text ih =>
    rw [List.splitOn_cons_eq_if_modifyHead] at h
    split at h
    · cases List.mem_cons.mp h with
      | inl he => simp [he]
      | inr h => exact ih h
    · rename_i hc
      cases hs : text.splitOn sep with
      | nil => exact absurd hs (List.splitOn_ne_nil _ _)
      | cons head rest =>
        rw [hs, List.modifyHead_cons] at h
        rw [hs] at ih
        cases List.mem_cons.mp h with
        | inl he =>
          have hhead := ih List.mem_cons_self
          have hne : sep ≠ c := fun hcs => hc (by simp [← hcs])
          simp [he, hne, hhead]
        | inr h => exact ih (List.mem_cons_of_mem _ h)

theorem of_mem_lines {text l : List α} (h : l ∈ lines sep text) : l ≠ [] ∧ sep ∉ l := by
  obtain ⟨hl, hne⟩ := List.mem_filter.mp h
  exact ⟨by simpa using hne, not_mem_of_mem_splitOn hl⟩

theorem lines_of_not_mem {l : List α} (hl : l ≠ []) (hsep : sep ∉ l) : lines sep l = [l] := by
  simp [lines, List.splitOn_eq_singleton hsep, hl]

/-- The pieces of one text lead those of another exactly when the texts are equal or a
separator follows the first text in the second. -/
theorem splitOn_prefix_iff (s t : List α) :
    s.splitOn sep <+: t.splitOn sep ↔ t = s ∨ ∃ u, t = s ++ sep :: u := by
  constructor
  · intro h
    obtain ⟨rest, hrest⟩ := h
    have hjoin : [sep].intercalate (t.splitOn sep) = t := List.intercalate_splitOn sep
    by_cases hnil : rest = []
    · rw [hnil, List.append_nil] at hrest
      rw [← hjoin, ← hrest, List.intercalate_splitOn]
      exact Or.inl rfl
    · refine Or.inr ⟨[sep].intercalate rest, ?_⟩
      rw [← hjoin, ← hrest, intercalate_append (List.splitOn_ne_nil _ _) hnil,
        List.intercalate_splitOn]
  · intro h
    obtain rfl | ⟨u, rfl⟩ := h
    · exact List.prefix_refl _
    · rw [List.splitOn_append_cons_self]
      exact List.prefix_append _ _

/-! ### Joining -/

theorem splitOn_intercalate_eq {pieces : List (List α)} (h : pieces ≠ []) :
    ([sep].intercalate pieces).splitOn sep = pieces.flatMap fun p => p.splitOn sep := by
  induction pieces with
  | nil => exact absurd rfl h
  | cons p pieces ih =>
    cases pieces with
    | nil => simp
    | cons q pieces =>
      rw [List.intercalate_cons_cons, List.append_assoc, List.singleton_append,
        List.splitOn_append_cons_self, ih (by simp)]
      simp

/-- The lines of a joined text are those of its pieces. -/
theorem lines_intercalate (pieces : List (List α)) :
    lines sep ([sep].intercalate pieces) = pieces.flatMap (lines sep) := by
  by_cases h : pieces = []
  · simp [h, lines_nil]
  · rw [lines, splitOn_intercalate_eq h, List.filter_flatMap]
    rfl

/-- Lines that are joined are read back. -/
theorem lines_intercalate_lines {ls : List (List α)} (h : ∀ l ∈ ls, l ≠ [] ∧ sep ∉ l) :
    lines sep ([sep].intercalate ls) = ls := by
  rw [lines_intercalate]
  induction ls with
  | nil => rfl
  | cons l ls ih =>
    obtain ⟨hl, hsep⟩ := h l List.mem_cons_self
    rw [List.flatMap_cons, lines_of_not_mem hl hsep, ih fun m hm => h m (List.mem_cons_of_mem l hm)]
    rfl

/-- Joining the lines of a text gives the text back exactly when it is empty or has no
empty piece. -/
theorem intercalate_lines_iff (text : List α) :
    [sep].intercalate (lines sep text) = text ↔ text = [] ∨ [] ∉ text.splitOn sep := by
  constructor
  · intro h
    by_cases hnil : text = []
    · exact Or.inl hnil
    · refine Or.inr fun hmem => ?_
      have hne : lines sep text ≠ [] := by
        intro he
        rw [he] at h
        exact hnil h.symm
      have hsplit := List.splitOn_intercalate sep (fun l hl => (of_mem_lines hl).2) hne
      rw [h] at hsplit
      rw [hsplit] at hmem
      exact (of_mem_lines hmem).1 rfl
  · intro h
    cases h with
    | inl h => rw [h, lines_nil, List.intercalate_nil]
    | inr h =>
      have hall : lines sep text = text.splitOn sep := by
        apply List.filter_eq_self.mpr
        intro piece hp
        have hne : piece ≠ [] := fun he => h (he ▸ hp)
        simp [hne]
      rw [hall, List.intercalate_splitOn]

/-- The same for a text that was joined from pieces. -/
theorem intercalate_lines_intercalate_iff (pieces : List (List α)) :
    [sep].intercalate (lines sep ([sep].intercalate pieces)) = [sep].intercalate pieces ↔
      pieces = [] ∨ pieces = [[]] ∨ ∀ p ∈ pieces, [] ∉ p.splitOn sep := by
  rw [intercalate_lines_iff, intercalate_eq_nil, or_assoc]
  by_cases h : pieces = []
  · simp [h]
  · rw [splitOn_intercalate_eq h]
    simp [h]

end Sapphillon.Lines
