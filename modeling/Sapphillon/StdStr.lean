import Mathlib.Data.List.Basic
import Mathlib.Data.List.DropRight
import Mathlib.Data.List.Infix

/-! The methods of `str` the program calls. A text is its list of characters; lengths and
offsets count bytes of its UTF-8 encoding, as in Rust. -/
namespace Sapphillon.StdStr

def asBytes (s : List Char) : List UInt8 := s.flatMap String.utf8EncodeChar

/-- `str::len`, in bytes. -/
def len (s : List Char) : Nat := (asBytes s).length

def startsWith (s pat : List Char) : Bool := pat.isPrefixOf s

/-- `trim_end_matches` with a character pattern. -/
def trimEndMatches (s : List Char) (c : Char) : List Char := s.rdropWhile (· == c)

/-- `str::contains` with a text pattern. -/
def contains (s pat : List Char) : Bool := s.tails.any fun t => startsWith t pat

/-- `split_once`: the texts before and after the leftmost occurrence of the pattern. -/
def splitOnce {α : Type*} [BEq α] (pat : List α) : List α → Option (List α × List α)
  | [] => if pat.isEmpty then some ([], []) else none
  | c :: s =>
    if pat.isPrefixOf (c :: s) then some ([], (c :: s).drop pat.length)
    else (splitOnce pat s).map fun (left, right) => (c :: left, right)

theorem asBytes_append (s t : List Char) : asBytes (s ++ t) = asBytes s ++ asBytes t := by
  simp [asBytes]

theorem asBytes_eq_nil {s : List Char} : asBytes s = [] ↔ s = [] := by
  cases s <;> simp [asBytes, String.utf8EncodeChar_ne_nil]

/-- An ASCII character is its own byte; every longer encoding leads with `0xC0` or more. -/
theorem utf8EncodeChar_head {c : Char} {b : UInt8} (h : (String.utf8EncodeChar c)[0]? = some b) :
    b.toNat = c.val.toNat ∨ 0xC0 ≤ b.toNat := by
  simp only [String.utf8EncodeChar] at h
  split at h
  · have hb : UInt8.ofNat c.val.toNat = b := Option.some.inj h
    left
    rw [← hb, UInt8.toNat_ofNat']
    omega
  · right
    split at h
    · have hb : UInt8.ofNat (c.val.toNat / 64 % 0x20 + 0xC0) = b := Option.some.inj h
      rw [← hb, UInt8.toNat_ofNat']
      omega
    · split at h
      · have hb : UInt8.ofNat (c.val.toNat / 4096 % 0x10 + 0xE0) = b := Option.some.inj h
        rw [← hb, UInt8.toNat_ofNat']
        omega
      · have hb : UInt8.ofNat (c.val.toNat / 262144 % 0x08 + 0xF0) = b := Option.some.inj h
        rw [← hb, UInt8.toNat_ofNat']
        omega

/-- The byte of a slash opens the encoding of the slash only. -/
theorem asBytes_head_slash (s : List Char) : (asBytes s)[0]? = some 0x2F ↔ s.head? = some '/' := by
  cases s with
  | nil => simp [asBytes]
  | cons c s =>
    have hne : String.utf8EncodeChar c ≠ [] := String.utf8EncodeChar_ne_nil
    have hhead : (asBytes (c :: s))[0]? = (String.utf8EncodeChar c)[0]? := by
      rw [asBytes, List.flatMap_cons, List.getElem?_append_left (List.length_pos_iff.mpr hne)]
    rw [hhead]
    constructor
    · intro h
      cases utf8EncodeChar_head h with
      | inl hv =>
        have hc : c = '/' := Char.ext (UInt32.toNat_inj.mp hv.symm)
        rw [hc]
        rfl
      | inr hv => exact absurd hv (by decide)
    · intro h
      rw [Option.some.inj h]
      decide

/-- The byte behind a prefix is a slash exactly when the character behind it is. -/
theorem asBytes_at_len (s t : List Char) :
    (asBytes (s ++ t))[len s]? = some 0x2F ↔ t.head? = some '/' := by
  rw [asBytes_append, len, List.getElem?_append_right le_rfl, Nat.sub_self, asBytes_head_slash]

theorem len_append_eq (s t : List Char) : len (s ++ t) = len s ↔ t = [] := by
  rw [len, len, asBytes_append, List.length_append, Nat.add_eq_left, List.length_eq_zero_iff,
    asBytes_eq_nil]

theorem contains_iff (s pat : List Char) : contains s pat = true ↔ pat <:+: s := by
  rw [contains, List.any_eq_true, List.infix_iff_prefix_suffix]
  refine exists_congr fun t => ?_
  rw [List.mem_tails, startsWith, List.isPrefixOf_iff_prefix, and_comm]

/-! ### Trimming -/

theorem trimEndMatches_append (s : List Char) (c : Char) :
    ∃ n, s = trimEndMatches s c ++ List.replicate n c := by
  induction s using List.reverseRecOn with
  | nil => exact ⟨0, rfl⟩
  | append_singleton s d ih =>
    by_cases hd : d = c
    · obtain ⟨n, hn⟩ := ih
      refine ⟨n + 1, ?_⟩
      rw [trimEndMatches, List.rdropWhile_concat_pos _ _ _ (by simpa using hd)]
      rw [List.replicate_succ', ← List.append_assoc, hd]
      exact congrArg (· ++ [c]) hn
    · exact ⟨0, by rw [trimEndMatches, List.rdropWhile_concat_neg _ _ _ (by simpa using hd)]; simp⟩

theorem getLast?_trimEndMatches (s : List Char) (c : Char) :
    (trimEndMatches s c).getLast? ≠ some c := by
  intro h
  have hne : trimEndMatches s c ≠ [] := by
    intro he
    simp [he] at h
  have hlast := List.rdropWhile_last_not (· == c) s hne
  rw [List.getLast?_eq_some_getLast hne] at h
  exact hlast (beq_iff_eq.mpr (Option.some.inj h))

/-- Trimming keeps every prefix that does not itself end in the trimmed character. -/
theorem prefix_trimEndMatches {a s : List Char} {c : Char} (h : a <+: s)
    (hlast : a.getLast? ≠ some c) : a <+: trimEndMatches s c := by
  induction s using List.reverseRecOn with
  | nil => exact h
  | append_singleton s d ih =>
    by_cases hd : d = c
    · rw [trimEndMatches, List.rdropWhile_concat_pos _ _ _ (by simpa using hd)]
      rcases List.prefix_concat_iff.mp h with rfl | h
      · exact absurd (by simp [hd]) hlast
      · exact ih h
    · rwa [trimEndMatches, List.rdropWhile_concat_neg _ _ _ (by simpa using hd)]

/-! ### Splitting -/

section Splitting
variable {α : Type*} [BEq α] [LawfulBEq α]

theorem splitOnce_here {pat : List α} {c : α} {s : List α} (h : pat <+: c :: s) :
    splitOnce pat (c :: s) = some ([], (c :: s).drop pat.length) := by
  rw [splitOnce, if_pos (List.isPrefixOf_iff_prefix.mpr h)]

theorem splitOnce_later {pat : List α} {c : α} {s : List α} (h : ¬ pat <+: c :: s) :
    splitOnce pat (c :: s) = (splitOnce pat s).map fun (left, right) => (c :: left, right) := by
  rw [splitOnce, if_neg fun hp => h (List.isPrefixOf_iff_prefix.mp hp)]

/-- The two parts with the pattern between them are the text. -/
theorem splitOnce_eq_append {pat s left right : List α}
    (h : splitOnce pat s = some (left, right)) : s = left ++ pat ++ right := by
  induction s generalizing left with
  | nil => cases pat <;> simp_all [splitOnce]
  | cons c s ih =>
    by_cases hp : pat <+: c :: s
    · obtain ⟨rest, hrest⟩ := hp
      rw [splitOnce_here ⟨rest, hrest⟩, ← hrest, List.drop_left] at h
      obtain ⟨rfl, rfl⟩ := Prod.mk.inj (Option.some.inj h)
      exact hrest.symm
    · rw [splitOnce_later hp] at h
      obtain ⟨⟨left', right'⟩, hs, he⟩ := Option.map_eq_some_iff.mp h
      obtain ⟨rfl, rfl⟩ := Prod.mk.inj he
      exact congrArg (c :: ·) (ih hs)

/-- A pattern is found behind a text that does not hold its first character. -/
theorem splitOnce_of_not_mem {c : α} {pat a : List α} (h : c ∉ a) (b : List α) :
    splitOnce (c :: pat) (a ++ c :: pat ++ b) = some (a, b) := by
  induction a with
  | nil =>
    rw [List.nil_append, List.cons_append, splitOnce_here ⟨b, rfl⟩]
    simp
  | cons d a ih =>
    obtain ⟨hd, ha⟩ := not_or.mp (List.mem_cons.not.mp h)
    have hne : ¬ c :: pat <+: d :: (a ++ c :: pat ++ b) := fun hp =>
      hd (List.cons_prefix_cons.mp hp).1
    rw [List.cons_append, List.cons_append, splitOnce_later hne, ih ha]
    rfl

/-- A doubled character written behind a text is found there exactly when the text does
not hold it and does not end in the character. -/
theorem splitOnce_pair_iff (c : α) (a b : List α) :
    splitOnce [c, c] (a ++ [c, c] ++ b) = some (a, b) ↔
      ¬ [c, c] <:+: a ∧ a.getLast? ≠ some c := by
  induction a with
  | nil => simp [splitOnce]
  | cons d a ih =>
    by_cases hp : [c, c] <+: d :: (a ++ [c, c] ++ b)
    · have hbad : [c, c] <:+: d :: a ∨ (d :: a).getLast? = some c := by
        obtain ⟨rfl, hq⟩ := List.cons_prefix_cons.mp hp
        cases a with
        | nil => exact Or.inr rfl
        | cons e a =>
          obtain ⟨rfl, _⟩ := List.cons_prefix_cons.mp hq
          exact Or.inl ⟨[], a, rfl⟩
      refine iff_of_false (fun h => ?_) fun h => hbad.elim h.1 h.2
      rw [List.cons_append, List.cons_append, splitOnce_here hp] at h
      simp at h
    · have hinfix : [c, c] <:+: d :: a ↔ [c, c] <:+: a := by
        rw [List.infix_cons_iff, or_iff_right fun h => hp ?_]
        exact h.trans ⟨[c, c] ++ b, by simp⟩
      have hlast : (d :: a).getLast? = some c ↔ a.getLast? = some c := by
        cases a with
        | nil =>
          have hd : d ≠ c := by
            intro he
            obtain rfl := he
            exact hp ⟨d :: b, rfl⟩
          simp [hd]
        | cons e a => rfl
      rw [List.cons_append, List.cons_append, splitOnce_later hp, hinfix, Ne, hlast]
      refine Iff.trans ?_ ih
      simp [Option.map_eq_some_iff]

end Splitting
end Sapphillon.StdStr
