import Mathlib.Data.List.Basic

/-! Double-quoted string literals of ECMAScript. A literal denotes UTF-16 code units, and its
escape sequences are written with more units than they denote. -/
namespace Sapphillon.StringLiteral

/-! ### Code units -/

/-- The code units of a code point. -/
def encode (v : Nat) : List UInt16 :=
  if v < 0x10000 then [UInt16.ofNat v]
  else [UInt16.ofNat (0xD800 + (v - 0x10000) / 0x400), UInt16.ofNat (0xDC00 + (v - 0x10000) % 0x400)]

def utf16 (text : List Char) : List UInt16 := text.flatMap fun c => encode c.toNat

theorem length_encode_pos (v : Nat) : 0 < (encode v).length := by
  unfold encode
  split <;> simp

theorem length_encode_le (v : Nat) : (encode v).length ≤ 2 := by
  unfold encode
  split <;> simp

@[simp] theorem utf16_nil : utf16 [] = [] := rfl

@[simp] theorem utf16_cons (c : Char) (text : List Char) :
    utf16 (c :: text) = encode c.toNat ++ utf16 text := rfl

@[simp] theorem utf16_append (s t : List Char) : utf16 (s ++ t) = utf16 s ++ utf16 t := by
  simp [utf16]

theorem length_le_utf16 (text : List Char) : text.length ≤ (utf16 text).length := by
  induction text with
  | nil => simp
  | cons c text ih =>
    have hc := length_encode_pos c.toNat
    simp only [utf16_cons, List.length_append, List.length_cons]
    omega

/-! ### From code units to text -/

def isLead (u : UInt16) : Bool := 0xD800 ≤ u.toNat && u.toNat < 0xDC00
def isTrail (u : UInt16) : Bool := 0xDC00 ≤ u.toNat && u.toNat < 0xE000

/-- The text that code units denote; a surrogate on its own denotes none. -/
def decode : List UInt16 → Option (List Char)
  | [] => some []
  | [u] => if isLead u || isTrail u then none else some [Char.ofNat u.toNat]
  | u :: v :: units =>
    if isLead u then
      if isTrail v then
        (decode units).map (Char.ofNat (0x10000 + (u.toNat - 0xD800) * 0x400 + (v.toNat - 0xDC00)) :: ·)
      else none
    else if isTrail u then none
    else (decode (v :: units)).map (Char.ofNat u.toNat :: ·)

theorem decode_encode (c : Char) (units : List UInt16) :
    decode (encode c.toNat ++ units) = (decode units).map (c :: ·) := by
  have hchar : Char.ofNat c.toNat = c := Char.ofNat_toNat c
  have hvalid : c.toNat < 0xD800 ∨ 0xDFFF < c.toNat ∧ c.toNat < 0x110000 := c.valid
  unfold encode
  split
  · rename_i hsmall
    have hunit : (UInt16.ofNat c.toNat).toNat = c.toNat := UInt16.toNat_ofNat_of_lt' hsmall
    have hlead : isLead (UInt16.ofNat c.toNat) = false := by
      simp only [isLead, hunit, Bool.and_eq_false_iff, decide_eq_false_iff_not]
      omega
    have htrail : isTrail (UInt16.ofNat c.toNat) = false := by
      simp only [isTrail, hunit, Bool.and_eq_false_iff, decide_eq_false_iff_not]
      omega
    cases units <;> simp [decode, hlead, htrail, hunit, hchar]
  · rename_i hbig
    have hhigh : 0xD800 + (c.toNat - 0x10000) / 0x400 < 0xDC00 := by omega
    have hlow : 0xDC00 + (c.toNat - 0x10000) % 0x400 < 0xE000 := by omega
    have hu : (UInt16.ofNat (0xD800 + (c.toNat - 0x10000) / 0x400)).toNat =
        0xD800 + (c.toNat - 0x10000) / 0x400 :=
      UInt16.toNat_ofNat_of_lt' (Nat.lt_trans hhigh (by decide))
    have hv : (UInt16.ofNat (0xDC00 + (c.toNat - 0x10000) % 0x400)).toNat =
        0xDC00 + (c.toNat - 0x10000) % 0x400 :=
      UInt16.toNat_ofNat_of_lt' (Nat.lt_trans hlow (by decide))
    have hlead : isLead (UInt16.ofNat (0xD800 + (c.toNat - 0x10000) / 0x400)) = true := by
      simp only [isLead, hu, Bool.and_eq_true, decide_eq_true_eq]
      omega
    have htrail : isTrail (UInt16.ofNat (0xDC00 + (c.toNat - 0x10000) % 0x400)) = true := by
      simp only [isTrail, hv, Bool.and_eq_true, decide_eq_true_eq]
      omega
    have hback : 0x10000 + (0xD800 + (c.toNat - 0x10000) / 0x400 - 0xD800) * 0x400 +
        (0xDC00 + (c.toNat - 0x10000) % 0x400 - 0xDC00) = c.toNat := by omega
    rw [List.cons_append, List.singleton_append, decode, if_pos hlead, if_pos htrail, hu, hv, hback,
      hchar]

/-- Code units give their text back. -/
theorem decode_utf16 (text : List Char) : decode (utf16 text) = some text := by
  induction text with
  | nil => rfl
  | cons c text ih => rw [utf16_cons, decode_encode, ih, Option.map_some]

/-! ### Digits -/

def digit (radix : Nat) (c : Char) : Option Nat :=
  let v :=
    if '0' ≤ c ∧ c ≤ '9' then c.toNat - 48
    else if 'a' ≤ c ∧ c ≤ 'f' then c.toNat - 87
    else if 'A' ≤ c ∧ c ≤ 'F' then c.toNat - 55
    else radix
  if v < radix then some v else none

/-- The value of as many digits as there are, up to a limit, and the text behind them. -/
def readDigits (radix : Nat) : Nat → Nat → List Char → Nat × List Char
  | _, acc, [] => (acc, [])
  | 0, acc, c :: text => (acc, c :: text)
  | limit + 1, acc, c :: text =>
    match digit radix c with
    | some d => readDigits radix limit (radix * acc + d) text
    | none => (acc, c :: text)

theorem readDigits_suffix (radix limit acc : Nat) (text : List Char) :
    (readDigits radix limit acc text).2 <:+ text := by
  induction text generalizing limit acc with
  | nil => simp [readDigits]
  | cons c text ih =>
    cases limit with
    | zero => exact List.suffix_rfl
    | succ limit =>
      simp only [readDigits]
      split
      · exact (ih limit _).trans (List.suffix_cons c text)
      · exact List.suffix_rfl

/-! ### Escape sequences -/

/-- A line terminator behind a backslash continues the literal on the next line. -/
def isLineTerminator (c : Char) : Prop :=
  c = '\n' ∨ c = '\r' ∨ c.toNat = 0x2028 ∨ c.toNat = 0x2029

instance (c : Char) : Decidable (isLineTerminator c) := inferInstanceAs (Decidable (_ ∨ _))

/-- Exactly so many hexadecimal digits. -/
def readHex (count : Nat) (text : List Char) : Option (List UInt16 × List Char) :=
  let (v, rest) := readDigits 16 count 0 text
  if rest.length + count = text.length then some (encode v, rest) else none

/-- Hexadecimal digits of a code point and the closing brace. -/
def readBraced (text : List Char) : Option (List UInt16 × List Char) :=
  let (v, rest) := readDigits 16 text.length 0 text
  if rest.length < text.length ∧ v ≤ 0x10FFFF ∧ rest.head? = some '\x7d' then
    some (encode v, rest.tail)
  else none

/-- Behind a digit `d`: the null character, or, outside strict code, a legacy octal escape
and the digits 8 and 9. -/
def readDigitEscape (strict : Bool) (d : Nat) (text : List Char) :
    Option (List UInt16 × List Char) :=
  if strict then
    if d = 0 ∧ (text.head?.bind (digit 10)).isNone then some ([0], text) else none
  else if 8 ≤ d then some ([UInt16.ofNat (48 + d)], text)
  else
    let (v, rest) := readDigits 8 (if d ≤ 3 then 2 else 1) d text
    some ([UInt16.ofNat v], rest)

/-- The letters with a meaning of their own; any other character stands for itself. -/
def single (c : Char) : Nat :=
  if c = 'b' then 8
  else if c = 't' then 9
  else if c = 'n' then 10
  else if c = 'v' then 11
  else if c = 'f' then 12
  else if c = 'r' then 13
  else c.toNat

/-- What stands behind a backslash. -/
def readEscape (strict : Bool) : List Char → Option (List UInt16 × List Char)
  | [] => none
  | c :: text =>
    if c = 'x' then readHex 2 text
    else if c = 'u' then
      if text.head? = some '\x7b' then readBraced text.tail else readHex 4 text
    else if c = '\r' ∧ text.head? = some '\n' then some ([], text.tail)
    else if isLineTerminator c then some ([], text)
    else
      match digit 10 c with
      | some d => readDigitEscape strict d text
      | none => some (encode (single c), text)

/-! ### Literals -/

/-- A character that stands for itself. The separators U+2028 and U+2029 may. -/
def Plain (c : Char) : Prop := c ≠ '"' ∧ c ≠ '\\' ∧ c ≠ '\n' ∧ c ≠ '\r'

instance (c : Char) : Decidable (Plain c) := inferInstanceAs (Decidable (_ ∧ _))

/-- One character of a literal: a plain one, an escape sequence or a line continuation. -/
def readChar (strict : Bool) : List Char → Option (List UInt16 × List Char)
  | [] => none
  | c :: text =>
    if Plain c then some (encode c.toNat, text)
    else if c = '\\' then readEscape strict text
    else none

/-- What is read, written with at least as many units as it denotes. -/
def Consumes (text : List Char) (r : List UInt16 × List Char) : Prop :=
  ∃ used, used ≠ [] ∧ text = used ++ r.2 ∧ r.1.length ≤ (utf16 used).length

theorem consumes_cons {c : Char} {text rest : List Char} {v : List UInt16} (h : rest <:+ text)
    (hv : v.length + rest.length ≤ text.length + 1) : Consumes (c :: text) (v, rest) := by
  obtain ⟨used, rfl⟩ := h
  refine ⟨c :: used, by simp, rfl, ?_⟩
  have hused := length_le_utf16 (c :: used)
  simp only [List.length_append, List.length_cons] at hv hused ⊢
  omega

theorem readHex_consumes {count : Nat} (hcount : 1 ≤ count) {c : Char} {text : List Char}
    {r : List UInt16 × List Char} (h : readHex count text = some r) : Consumes (c :: text) r := by
  simp only [readHex] at h
  split at h
  · rename_i hlen
    obtain rfl := Option.some.inj h
    have hv := length_encode_le (readDigits 16 count 0 text).1
    exact consumes_cons (readDigits_suffix 16 count 0 text) (by omega)
  · cases h

theorem readBraced_consumes {c : Char} {text : List Char} {r : List UInt16 × List Char}
    (h : readBraced text.tail = some r) : Consumes (c :: text) r := by
  simp only [readBraced] at h
  split at h
  · rename_i hcond
    obtain ⟨hlen, _, _⟩ := hcond
    obtain rfl := Option.some.inj h
    have hv := length_encode_le (readDigits 16 text.tail.length 0 text.tail).1
    have hsuffix := readDigits_suffix 16 text.tail.length 0 text.tail
    refine consumes_cons (((List.tail_suffix _).trans hsuffix).trans (List.tail_suffix _)) ?_
    simp only [List.length_tail] at hlen hv ⊢
    omega
  · cases h

theorem readDigitEscape_consumes {strict : Bool} {d : Nat} {c : Char} {text : List Char}
    {r : List UInt16 × List Char} (h : readDigitEscape strict d text = some r) :
    Consumes (c :: text) r := by
  have hone {v : UInt16} {rest : List Char} (hs : rest <:+ text) :
      Consumes (c :: text) ([v], rest) := by
    have hlen := hs.length_le
    exact consumes_cons hs (by simp only [List.length_singleton]; omega)
  simp only [readDigitEscape] at h
  split_ifs at h
  · exact Option.some.inj h ▸ hone List.suffix_rfl
  · exact Option.some.inj h ▸ hone List.suffix_rfl
  · exact Option.some.inj h ▸ hone (readDigits_suffix _ _ _ _)
  · exact Option.some.inj h ▸ hone (readDigits_suffix _ _ _ _)

theorem length_encode_single (c : Char) :
    (encode (single c)).length ≤ (encode c.toNat).length := by
  have hpos := length_encode_pos c.toNat
  unfold single
  split_ifs
  all_goals first | exact hpos | exact Nat.le_refl _

/-- An escape sequence is written with at least as many units as it denotes, next to its
backslash. -/
theorem readEscape_consumes {strict : Bool} {text : List Char} {r : List UInt16 × List Char}
    (h : readEscape strict text = some r) : Consumes text r := by
  cases text with
  | nil => cases h
  | cons c text =>
    simp only [readEscape] at h
    split_ifs at h with hx hu hbrace hcrlf hline
    · exact readHex_consumes (by omega) h
    · exact readBraced_consumes h
    · exact readHex_consumes (by omega) h
    · obtain rfl := Option.some.inj h
      exact consumes_cons (List.tail_suffix text) (by simp; omega)
    · obtain rfl := Option.some.inj h
      exact consumes_cons List.suffix_rfl (by simp)
    · cases hd : digit 10 c with
      | some d =>
        rw [hd] at h
        exact readDigitEscape_consumes h
      | none =>
        rw [hd] at h
        obtain rfl := Option.some.inj h
        exact ⟨[c], by simp, rfl, by simpa using length_encode_single c⟩

/-- One character of a literal denotes fewer units than it is written with, or it is plain. -/
theorem readChar_consumes {strict : Bool} {text : List Char} {r : List UInt16 × List Char}
    (h : readChar strict text = some r) :
    (∃ c, Plain c ∧ text = c :: r.2 ∧ r.1 = encode c.toNat) ∨
      ∃ used, text = used ++ r.2 ∧ r.1.length < (utf16 used).length := by
  cases text with
  | nil => cases h
  | cons c text =>
    simp only [readChar] at h
    split_ifs at h with hp hb
    · obtain rfl := Option.some.inj h
      exact Or.inl ⟨c, hp, rfl, rfl⟩
    · obtain ⟨used, _, htext, hlen⟩ := readEscape_consumes h
      refine Or.inr ⟨c :: used, by rw [htext]; rfl, ?_⟩
      have hpos := length_encode_pos c.toNat
      simp only [utf16_cons, List.length_append]
      omega

theorem readChar_shorter {strict : Bool} {text : List Char} {r : List UInt16 × List Char}
    (h : readChar strict text = some r) : r.2.length < text.length := by
  obtain ⟨c, _, htext, _⟩ | ⟨used, htext, hlen⟩ := readChar_consumes h
  · simp [htext]
  · cases used with
    | nil => simp at hlen
    | cons c used =>
      simp only [htext, List.length_append, List.length_cons]
      omega

/-- A literal from behind its opening quote: what it denotes, and the text behind the
closing quote. -/
def readLiteral (strict : Bool) (text : List Char) : Option (List UInt16 × List Char) :=
  if text.head? = some '"' then some ([], text.tail)
  else
    match _h : readChar strict text with
    | none => none
    | some (v, rest) => (readLiteral strict rest).map fun (vs, tail) => (v ++ vs, tail)
termination_by text.length
decreasing_by exact readChar_shorter _h

theorem readLiteral_quote (strict : Bool) (text : List Char) :
    readLiteral strict ('"' :: text) = some ([], text) := by
  rw [readLiteral]
  simp

theorem readLiteral_step {strict : Bool} {text rest : List Char} {v : List UInt16}
    (hq : text.head? ≠ some '"') (h : readChar strict text = some (v, rest)) :
    readLiteral strict text =
      (readLiteral strict rest).map fun (vs, tail) => (v ++ vs, tail) := by
  rw [readLiteral, if_neg hq]
  split
  · rename_i hread
    cases h.symm.trans hread
  · rename_i hread
    cases h.symm.trans hread
    rfl

theorem readLiteral_stuck {strict : Bool} {text : List Char} (hq : text.head? ≠ some '"')
    (h : readChar strict text = none) : readLiteral strict text = none := by
  rw [readLiteral, if_neg hq]
  split
  · rfl
  · rename_i hread
    cases h.symm.trans hread

/-- A literal denotes no more units than it is written with, and as many only when all its
characters are plain. -/
theorem readLiteral_consumes {strict : Bool} {text : List Char} {v : List UInt16}
    {tail : List Char} (h : readLiteral strict text = some (v, tail)) :
    ∃ used, text = used ++ '"' :: tail ∧ v.length ≤ (utf16 used).length ∧
      (v.length = (utf16 used).length → ∀ c ∈ used, Plain c) := by
  induction text using readLiteral.induct strict generalizing v tail with
  | case1 text hq =>
    obtain ⟨rest, rfl⟩ := List.head?_eq_some_iff.mp hq
    rw [readLiteral_quote] at h
    obtain ⟨rfl, rfl⟩ := Prod.mk.inj (Option.some.inj h)
    exact ⟨[], rfl, by simp, by simp⟩
  | case2 text hq hread =>
    rw [readLiteral_stuck hq hread] at h
    cases h
  | case3 text hq v' rest hread ih =>
    rw [readLiteral_step hq hread] at h
    simp only [Option.map_eq_some_iff, Prod.mk.injEq, Prod.exists] at h
    obtain ⟨vs, tail', hrest, rfl, rfl⟩ := h
    obtain ⟨used, rfl, hle, hplain⟩ := ih hrest
    obtain ⟨c, hc, rfl, rfl⟩ | ⟨more, rfl, hlt⟩ := readChar_consumes hread
    · refine ⟨c :: used, rfl, ?_, fun heq => ?_⟩
      · simp only [utf16_cons, List.length_append]
        omega
      · simp only [utf16_cons, List.length_append] at heq
        exact List.forall_mem_cons.mpr ⟨hc, hplain (by omega)⟩
    · have hlt : v'.length < (utf16 more).length := hlt
      refine ⟨more ++ used, (List.append_assoc _ _ _).symm, ?_, fun heq => ?_⟩
      · simp only [utf16_append, List.length_append]
        omega
      · simp only [utf16_append, List.length_append] at heq
        omega

/-- A text between quotes is read as itself, up to its closing quote, exactly when all its
characters are plain. -/
theorem readLiteral_eq_utf16_iff (strict : Bool) (content tail : List Char) :
    readLiteral strict (content ++ '"' :: tail) = some (utf16 content, tail) ↔
      ∀ c ∈ content, Plain c := by
  constructor
  · intro h
    obtain ⟨used, hused, _, hplain⟩ := readLiteral_consumes h
    obtain rfl := List.append_cancel_right hused
    exact hplain rfl
  · intro h
    induction content with
    | nil => exact readLiteral_quote strict tail
    | cons c content ih =>
      obtain ⟨hc, hrest⟩ := List.forall_mem_cons.mp h
      have hread : readChar strict (c :: (content ++ '"' :: tail)) =
          some (encode c.toNat, content ++ '"' :: tail) := if_pos hc
      rw [List.cons_append, readLiteral_step (by simpa using hc.1) hread, ih hrest]
      rfl

end Sapphillon.StringLiteral
