import Sapphillon.Json
import Mathlib.Data.List.Basic

/-! The JSON text of objects of strings: a writer and a reader that undo each other. The
writer escapes the quote and the backslash; other characters stand for themselves. -/
namespace Sapphillon.JsonText

def escapeChar (c : Char) : List Char := if c = '"' ∨ c = '\\' then ['\\', c] else [c]

/-- The escaped text with its closing quote, in front of what follows. -/
def writeChars (s tail : List Char) : List Char := s.flatMap escapeChar ++ '"' :: tail

def readChars : List Char → Option (List Char × List Char)
  | [] => none
  | '"' :: rest => some ([], rest)
  | '\\' :: c :: rest => (readChars rest).map fun (s, tail) => (c :: s, tail)
  | c :: rest => (readChars rest).map fun (s, tail) => (c :: s, tail)

def writeField (f : String × String) (tail : List Char) : List Char :=
  '"' :: writeChars f.1.toList (':' :: '"' :: writeChars f.2.toList tail)

def readField : List Char → Option ((String × String) × List Char)
  | '"' :: text => do
    let (key, text) ← readChars text
    match text with
    | ':' :: '"' :: text => do
      let (value, text) ← readChars text
      return ((String.ofList key, String.ofList value), text)
    | _ => none
  | _ => none

/-- The fields behind the first one, and the closing brace. -/
def writeRest : List (String × String) → List Char
  | [] => ['\x7d']
  | f :: rest => ',' :: writeField f (writeRest rest)

def readRest : Nat → List Char → Option (List (String × String))
  | _, ['\x7d'] => some []
  | n + 1, ',' :: text => do
    let (f, text) ← readField text
    let rest ← readRest n text
    return f :: rest
  | _, _ => none

def writeObject (fields : List (String × String)) : String :=
  String.ofList <| '\x7b' :: match fields with
    | [] => ['\x7d']
    | f :: rest => writeField f (writeRest rest)

def readObject (text : String) : Option (List (String × String)) :=
  match text.toList with
  | '\x7b' :: text =>
    if text = ['\x7d'] then some []
    else do
      let (f, text) ← readField text
      let rest ← readRest text.length text
      return f :: rest
  | _ => none

theorem readChars_writeChars (s tail : List Char) :
    readChars (writeChars s tail) = some (s, tail) := by
  induction s with
  | nil => simp [writeChars, readChars]
  | cons c s ih =>
    have hcons : writeChars (c :: s) tail = escapeChar c ++ writeChars s tail := by
      simp [writeChars]
    rw [hcons]
    by_cases hc : c = '"' ∨ c = '\\'
    · simp [escapeChar, hc, readChars, ih]
    · obtain ⟨hq, hb⟩ := not_or.mp hc
      rw [escapeChar, if_neg hc, List.singleton_append, readChars]
      · rw [ih]
        rfl
      · exact fun h => hq h
      · exact fun _ _ h _ => hb h

theorem readField_writeField (f : String × String) (tail : List Char) :
    readField (writeField f tail) = some (f, tail) := by
  simp [writeField, readField, readChars_writeChars]

theorem length_writeRest (fields : List (String × String)) :
    fields.length < (writeRest fields).length := by
  induction fields with
  | nil => simp [writeRest]
  | cons f rest ih =>
    simp only [writeRest, writeField, writeChars, List.length_cons, List.length_append]
    omega

theorem readRest_writeRest {n : Nat} {fields : List (String × String)} (h : fields.length ≤ n) :
    readRest n (writeRest fields) = some fields := by
  induction fields generalizing n with
  | nil => cases n <;> rfl
  | cons f rest ih =>
    obtain ⟨m, rfl⟩ : ∃ m, n = m + 1 := ⟨n - 1, by simp at h; omega⟩
    rw [writeRest, readRest, readField_writeField]
    simp [ih (Nat.le_of_succ_le_succ h)]

/-- What is written is read back. -/
theorem readObject_writeObject (fields : List (String × String)) :
    readObject (writeObject fields) = some fields := by
  cases fields with
  | nil => simp [readObject, writeObject]
  | cons f rest =>
    have hlen : rest.length ≤ (writeRest rest).length := Nat.le_of_lt (length_writeRest rest)
    have hfield := readField_writeField f (writeRest rest)
    have hne : writeField f (writeRest rest) ≠ ['\x7d'] := by simp [writeField]
    simp [readObject, writeObject, hne, hfield, readRest_writeRest hlen]

/-! ### Values of this kind -/

def stringFields? : Json → Option (List (String × String))
  | .object fields => fields.mapM fun (key, j) => j.asStr?.map fun s => (key, s)
  | _ => none

def writeValue (j : Json) : Except String String :=
  match stringFields? j with
  | some fields => .ok (writeObject fields)
  | none => .error "unsupported value"

def readValue (text : String) : Except String Json :=
  match readObject text with
  | some fields => .ok (Json.stringObject fields)
  | none => .error "expected value"

theorem stringFields?_stringObject (fields : List (String × String)) :
    stringFields? (Json.stringObject fields) = some fields := by
  induction fields with
  | nil => rfl
  | cons f rest ih =>
    simp only [stringFields?, Json.stringObject, List.map_cons, List.mapM_cons] at ih ⊢
    rw [ih]
    rfl

theorem writeValue_stringObject (fields : List (String × String)) :
    writeValue (Json.stringObject fields) = .ok (writeObject fields) := by
  rw [writeValue, stringFields?_stringObject]

theorem readValue_writeObject (fields : List (String × String)) :
    readValue (writeObject fields) = .ok (Json.stringObject fields) := by
  rw [readValue, readObject_writeObject]

end Sapphillon.JsonText
