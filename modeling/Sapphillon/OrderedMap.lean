import Mathlib.Order.Lattice
import Mathlib.Data.List.Basic

/-! A map kept as its entries in increasing order of a rank of the keys. Keys of one rank
count as one key: an insertion over such a key keeps the old key and takes the new value. -/
namespace Sapphillon
variable {κ ν ρ : Type*} [LinearOrder ρ] {rank : κ → ρ}

structure OrderedMap (κ ν : Type*) {ρ : Type*} [LinearOrder ρ] (rank : κ → ρ) where
  entries : List (κ × ν)
  sorted : entries.Pairwise fun a b => rank a.1 < rank b.1

namespace OrderedMap

def insertEntry (rank : κ → ρ) (k : κ) (v : ν) : List (κ × ν) → List (κ × ν)
  | [] => [(k, v)]
  | e :: rest =>
    if rank k < rank e.1 then (k, v) :: e :: rest
    else if rank k = rank e.1 then (e.1, v) :: rest
    else e :: insertEntry rank k v rest

/-- The ranks after an insertion are the old ones and the rank of the key. -/
theorem exists_rank_insertEntry (k : κ) (v : ν) (l : List (κ × ν)) (r : ρ) :
    (∃ e ∈ insertEntry rank k v l, rank e.1 = r) ↔ rank k = r ∨ ∃ e ∈ l, rank e.1 = r := by
  induction l with
  | nil => simp [insertEntry]
  | cons e l ih =>
    unfold insertEntry
    split
    · simp
    · split
      · rename_i h
        simp [h]
      · simp only [List.mem_cons, exists_eq_or_imp, ih]
        tauto

theorem insertEntry_sorted (k : κ) (v : ν) {l : List (κ × ν)}
    (h : l.Pairwise fun a b => rank a.1 < rank b.1) :
    (insertEntry rank k v l).Pairwise fun a b => rank a.1 < rank b.1 := by
  induction l with
  | nil => simp [insertEntry]
  | cons e l ih =>
    obtain ⟨he, hl⟩ := List.pairwise_cons.mp h
    unfold insertEntry
    split
    · rename_i hlt
      refine List.pairwise_cons.mpr ⟨fun b hb => ?_, h⟩
      rcases List.mem_cons.mp hb with rfl | hb
      · exact hlt
      · exact hlt.trans (he b hb)
    · split
      · exact List.pairwise_cons.mpr ⟨he, hl⟩
      · rename_i hnlt hne
        refine List.pairwise_cons.mpr ⟨fun b hb => ?_, ih hl⟩
        rcases (exists_rank_insertEntry k v l (rank b.1)).mp ⟨b, hb, rfl⟩ with hb | ⟨c, hc, hb⟩
        · exact hb ▸ lt_of_le_of_ne (not_lt.mp hnlt) (Ne.symm hne)
        · exact hb ▸ he c hc

/-- An entry after an insertion is an old one, the new one, or the old key of the new
key's rank with the new value. -/
theorem mem_insertEntry {k : κ} {v : ν} {l : List (κ × ν)} {e : κ × ν}
    (h : e ∈ insertEntry rank k v l) :
    e ∈ l ∨ e.2 = v ∧ rank e.1 = rank k ∧ (e.1 = k ∨ ∃ e' ∈ l, e'.1 = e.1) := by
  induction l with
  | nil =>
    obtain rfl : e = (k, v) := by simpa [insertEntry] using h
    exact Or.inr ⟨rfl, rfl, Or.inl rfl⟩
  | cons a l ih =>
    unfold insertEntry at h
    split at h
    · rcases List.mem_cons.mp h with rfl | h
      · exact Or.inr ⟨rfl, rfl, Or.inl rfl⟩
      · exact Or.inl h
    · split at h
      · rename_i hk
        rcases List.mem_cons.mp h with rfl | h
        · exact Or.inr ⟨rfl, hk.symm, Or.inr ⟨a, List.mem_cons_self, rfl⟩⟩
        · exact Or.inl (List.mem_cons_of_mem _ h)
      · rcases List.mem_cons.mp h with rfl | h
        · exact Or.inl List.mem_cons_self
        · rcases ih h with h | ⟨hv, hr, h⟩
          · exact Or.inl (List.mem_cons_of_mem _ h)
          · refine Or.inr ⟨hv, hr, h.imp_right ?_⟩
            intro hfound
            obtain ⟨e', he', hk⟩ := hfound
            exact ⟨e', List.mem_cons_of_mem _ he', hk⟩

def empty : OrderedMap κ ν rank := ⟨[], List.Pairwise.nil⟩

def insert (m : OrderedMap κ ν rank) (k : κ) (v : ν) : OrderedMap κ ν rank :=
  ⟨insertEntry rank k v m.entries, insertEntry_sorted k v m.sorted⟩

def isEmpty (m : OrderedMap κ ν rank) : Bool := m.entries.isEmpty

/-- Insertions from left to right. -/
def insertAll (m : OrderedMap κ ν rank) (l : List (κ × ν)) : OrderedMap κ ν rank :=
  l.foldl (fun m e => m.insert e.1 e.2) m

theorem exists_rank_insertAll (l : List (κ × ν)) (m : OrderedMap κ ν rank) (r : ρ) :
    (∃ e ∈ (m.insertAll l).entries, rank e.1 = r) ↔
      (∃ e ∈ m.entries, rank e.1 = r) ∨ ∃ e ∈ l, rank e.1 = r := by
  induction l generalizing m with
  | nil => simp [insertAll]
  | cons e l ih =>
    refine (ih (m.insert e.1 e.2)).trans ?_
    rw [insert, exists_rank_insertEntry]
    simp only [List.mem_cons, exists_eq_or_imp]
    rw [or_assoc, or_left_comm]

/-- Keys and values of the result were inserted, or there before; the value of a key came
with a key of the same rank. -/
theorem mem_insertAll {l : List (κ × ν)} {m : OrderedMap κ ν rank} {e : κ × ν}
    (h : e ∈ (m.insertAll l).entries) :
    (∃ a ∈ m.entries ++ l, a.1 = e.1) ∧
      ∃ a ∈ m.entries ++ l, a.2 = e.2 ∧ rank a.1 = rank e.1 := by
  induction l generalizing m with
  | nil =>
    have he : e ∈ m.entries ++ [] := List.mem_append_left _ h
    exact ⟨⟨e, he, rfl⟩, e, he, rfl, rfl⟩
  | cons x l ih =>
    obtain ⟨⟨a, ha, hk⟩, b, hb, hv, hr⟩ := ih (m := m.insert x.1 x.2) h
    have hmove : ∀ {c}, c ∈ m.entries ∨ c = x ∨ c ∈ l → c ∈ m.entries ++ x :: l := by simp
    constructor
    · cases List.mem_append.mp ha with
      | inl ha =>
        rcases mem_insertEntry ha with ha | ⟨_, _, hx | ⟨a', ha', hk'⟩⟩
        · exact ⟨a, hmove (Or.inl ha), hk⟩
        · exact ⟨x, hmove (Or.inr (Or.inl rfl)), hx.symm.trans hk⟩
        · exact ⟨a', hmove (Or.inl ha'), hk'.trans hk⟩
      | inr ha => exact ⟨a, hmove (Or.inr (Or.inr ha)), hk⟩
    · cases List.mem_append.mp hb with
      | inl hb =>
        rcases mem_insertEntry hb with hb | ⟨hbv, hbr, _⟩
        · exact ⟨b, hmove (Or.inl hb), hv, hr⟩
        · exact ⟨x, hmove (Or.inr (Or.inl rfl)), hbv.symm.trans hv, hbr.symm.trans hr⟩
      | inr hb => exact ⟨b, hmove (Or.inr (Or.inr hb)), hv, hr⟩

/-! ### The order of insertions -/

theorem insertEntry_of_lt {k : κ} {e : κ × ν} (h : rank k < rank e.1) (v : ν)
    (rest : List (κ × ν)) : insertEntry rank k v (e :: rest) = (k, v) :: e :: rest := if_pos h

theorem insertEntry_of_eq {k : κ} {e : κ × ν} (h : rank k = rank e.1) (v : ν)
    (rest : List (κ × ν)) : insertEntry rank k v (e :: rest) = (e.1, v) :: rest := by
  rw [insertEntry, if_neg (h ▸ lt_irrefl _), if_pos h]

theorem insertEntry_of_gt {k : κ} {e : κ × ν} (h : rank e.1 < rank k) (v : ν)
    (rest : List (κ × ν)) :
    insertEntry rank k v (e :: rest) = e :: insertEntry rank k v rest := by
  rw [insertEntry, if_neg h.not_gt, if_neg h.ne']

theorem insertEntry_comm_of_lt {k k' : κ} (h : rank k < rank k') (v v' : ν) (l : List (κ × ν)) :
    insertEntry rank k v (insertEntry rank k' v' l) =
      insertEntry rank k' v' (insertEntry rank k v l) := by
  induction l with
  | nil => simp [insertEntry, h, h.not_gt, h.ne']
  | cons e l ih =>
    obtain hlt | heq | hgt := lt_trichotomy (rank k) (rank e.1)
    · rw [insertEntry_of_lt hlt, insertEntry_of_gt (e := (k, v)) h]
      obtain hlt' | heq' | hgt' := lt_trichotomy (rank k') (rank e.1)
      · rw [insertEntry_of_lt hlt', insertEntry_of_lt (e := (k', v')) h]
      · rw [insertEntry_of_eq heq', insertEntry_of_lt (e := (e.1, v')) hlt]
      · rw [insertEntry_of_gt hgt', insertEntry_of_lt hlt]
    · have hgt' : rank e.1 < rank k' := heq ▸ h
      rw [insertEntry_of_eq heq, insertEntry_of_gt hgt', insertEntry_of_eq heq,
        insertEntry_of_gt (e := (e.1, v)) hgt']
    · rw [insertEntry_of_gt hgt, insertEntry_of_gt (hgt.trans h), insertEntry_of_gt hgt,
        insertEntry_of_gt (hgt.trans h), ih]

/-- Insertions under keys of different ranks commute. -/
theorem insert_comm {k k' : κ} (h : rank k ≠ rank k') (v v' : ν) (m : OrderedMap κ ν rank) :
    (m.insert k v).insert k' v' = (m.insert k' v').insert k v := by
  have hentries : insertEntry rank k' v' (insertEntry rank k v m.entries) =
      insertEntry rank k v (insertEntry rank k' v' m.entries) := by
    cases lt_or_gt_of_ne h with
    | inl hlt => exact (insertEntry_comm_of_lt hlt v v' m.entries).symm
    | inr hgt => exact insertEntry_comm_of_lt hgt v' v m.entries
  unfold insert
  congr 1

theorem insertAll_append (m : OrderedMap κ ν rank) (l l' : List (κ × ν)) :
    m.insertAll (l ++ l') = (m.insertAll l).insertAll l' := List.foldl_append

/-- Entries that differ in rank or not at all may be inserted in any order. -/
theorem insertAll_perm {l l' : List (κ × ν)} (h : l.Perm l')
    (hrank : ∀ a ∈ l, ∀ b ∈ l, rank a.1 = rank b.1 → a = b) (m : OrderedMap κ ν rank) :
    m.insertAll l = m.insertAll l' := by
  refine h.foldl_eq' (fun a ha b hb m => ?_) m
  by_cases hr : rank a.1 = rank b.1
  · rw [hrank a ha b hb hr]
  · exact insert_comm hr a.2 b.2 m

end OrderedMap
end Sapphillon
