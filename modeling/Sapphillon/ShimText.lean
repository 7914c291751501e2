import Sapphillon.Plugin
import Sapphillon.StringLiteral

/-! The text of the shim of an external function as a program: its string literals, and when
they denote the names that were pasted between their quotes. -/
namespace Sapphillon.ShimText
open Plugin StringLiteral

def quoted (name : String) : String := "\"" ++ name ++ "\""

/-- Pieces of code, each with a quoted name behind it, and the code behind the last one. -/
def assemble : List (String × String) → String → String
  | [], last => last
  | (code, name) :: pieces, last => code ++ quoted name ++ assemble pieces last

/-- A place where the template opens a literal, pastes a name and closes the literal. -/
structure Slot where
  before : String
  name : String
  after : String

def Slot.text (slot : Slot) : String := slot.before ++ quoted slot.name ++ slot.after

/-- The places of an assembled text, behind what was assembled before. -/
def slots (before : String) : List (String × String) → String → List Slot
  | [], _ => []
  | (code, name) :: pieces, last =>
    ⟨before ++ code, name, assemble pieces last⟩ ::
      slots (before ++ code ++ quoted name) pieces last

theorem text_of_mem_slots {before : String} {pieces : List (String × String)} {last : String}
    {slot : Slot} (h : slot ∈ slots before pieces last) :
    slot.text = before ++ assemble pieces last := by
  induction pieces generalizing before with
  | nil => cases h
  | cons piece pieces ih =>
    cases List.mem_cons.mp h with
    | inl he => simp [he, Slot.text, assemble, String.append_assoc]
    | inr h => simp [ih h, assemble, String.append_assoc]

theorem map_name_slots (before : String) (pieces : List (String × String)) (last : String) :
    (slots before pieces last).map Slot.name = pieces.map Prod.snd := by
  induction pieces generalizing before with
  | nil => rfl
  | cons piece pieces ih => simp [slots, ih]

/-! ### The template of `get_pre_run_js` -/

def shimPieces (pkg func : String) : List (String × String) :=
  [("\nglobalThis.Sapphillon = globalThis.Sapphillon ?? \x7b\x7d;\n" ++
      "globalThis.Sapphillon[", pkg),
    ("] = globalThis.Sapphillon[", pkg),
    ("] ?? \x7b\x7d;\n" ++ "globalThis.Sapphillon[", pkg),
    ("][", func),
    ("] = function(args) \x7b\n" ++ "    const raw = __sapphillon_dispatch(\n" ++ "        ",
      opKey pkg func)]

def shimEnd : String :=
  ",\n" ++ "        JSON.stringify(args ?? \x7b\x7d)\n" ++ "    );\n" ++
    "    return JSON.parse(raw);\n" ++ "\x7d;\n"

def shimSlots (pkg func : String) : List Slot := slots "" (shimPieces pkg func) shimEnd

theorem externalShim_eq (pkg func : String) :
    externalShim pkg func = assemble (shimPieces pkg func) shimEnd := by
  have hobject : "globalThis.Sapphillon[\"" = "globalThis.Sapphillon[" ++ "\"" := by decide
  have hassign : "\"] = globalThis.Sapphillon[\"" =
      "\"" ++ "] = globalThis.Sapphillon[" ++ "\"" := by decide
  have hdefault : "\"] ?? \x7b\x7d;\n" = "\"" ++ "] ?? \x7b\x7d;\n" := by decide
  have hmember : "\"][\"" = "\"" ++ "][" ++ "\"" := by decide
  have hfunction : "\"] = function(args) \x7b\n" = "\"" ++ "] = function(args) \x7b\n" := by decide
  have hkey : "        \"" = "        " ++ "\"" := by decide
  have hargs : "\",\n" = "\"" ++ ",\n" := by decide
  unfold externalShim shimPieces shimEnd
  simp only [hobject, hassign, hdefault, hmember, hfunction, hkey, hargs, assemble, quoted,
    String.append_assoc, -String.reduceAppend]

/-- Read from its opening quote, the literal ends at the quote of the template and denotes
the name. -/
def Slot.Denotes (strict : Bool) (slot : Slot) : Prop :=
  readLiteral strict (slot.name ++ "\"" ++ slot.after).toList =
    some (utf16 slot.name.toList, slot.after.toList)

/-- Every literal of a shim denotes the name it was made from: three times the package id,
the function name and the op key. -/
def DenotesNames (strict : Bool) (text pkg func : String) : Prop :=
  ∀ slot ∈ shimSlots pkg func, slot.text = text ∧ slot.Denotes strict

/-- A name without quotes, backslashes, line feeds and carriage returns. -/
def PlainName (name : String) : Prop := ∀ c ∈ name.toList, Plain c

instance (name : String) : Decidable (PlainName name) := List.decidableBAll Plain name.toList

theorem Slot.denotes_iff (strict : Bool) (slot : Slot) :
    slot.Denotes strict ↔ PlainName slot.name := by
  have htext : (slot.name ++ "\"" ++ slot.after).toList =
      slot.name.toList ++ '"' :: slot.after.toList := by simp
  rw [Slot.Denotes, htext]
  exact readLiteral_eq_utf16_iff strict _ _

theorem plainName_opKey (pkg func : String) :
    PlainName (opKey pkg func) ↔ PlainName pkg ∧ PlainName func := by
  have hsep : ∀ c ∈ [':', ':'], Plain c := by simp [Plain]
  have hkey : (opKey pkg func).toList = pkg.toList ++ [':', ':'] ++ func.toList := by simp [opKey]
  simp only [PlainName, hkey, List.forall_mem_append]
  exact ⟨fun h => ⟨h.1.1, h.2⟩, fun h => ⟨⟨h.1, hsep⟩, h.2⟩⟩

theorem denotesNames_iff (strict : Bool) (pkg func : String) :
    DenotesNames strict (externalShim pkg func) pkg func ↔ PlainName pkg ∧ PlainName func := by
  have htext : ∀ slot ∈ shimSlots pkg func, slot.text = externalShim pkg func := by
    intro slot h
    rw [text_of_mem_slots h, externalShim_eq, String.empty_append]
  have hnames : (shimSlots pkg func).map Slot.name = [pkg, pkg, pkg, func, opKey pkg func] :=
    map_name_slots _ _ _
  calc DenotesNames strict (externalShim pkg func) pkg func
      ↔ ∀ slot ∈ shimSlots pkg func, PlainName slot.name := by
        refine forall₂_congr fun slot h => ?_
        rw [Slot.denotes_iff, and_iff_right (htext slot h)]
    _ ↔ ∀ name ∈ [pkg, pkg, pkg, func, opKey pkg func], PlainName name := by
        rw [← hnames, List.forall_mem_map]
    _ ↔ PlainName pkg ∧ PlainName func := by
        simp only [List.forall_mem_cons, plainName_opKey]
        tauto

/-- The literals of a shim denote its names exactly when the package id and the function
name are plain. -/
theorem shim_denotes_iff (strict : Bool) (f : CorePluginExternalFunction) (ref : ExternalFnRef) :
    ((∃ text, f.getPreRunJs = some text ∧ DenotesNames strict text f.packageId f.name) ↔
      PlainName f.packageId ∧ PlainName f.name) ∧
    ((∃ text, ref.getPreRunJs = some text ∧ DenotesNames strict text ref.packageId ref.name) ↔
      PlainName ref.packageId ∧ PlainName ref.name) := by
  have hshim (pkg func : String) : (∃ text, some (externalShim pkg func) = some text ∧
      DenotesNames strict text pkg func) ↔ PlainName pkg ∧ PlainName func := by
    simp [denotesNames_iff]
  exact ⟨hshim f.packageId f.name, hshim ref.packageId ref.name⟩

/-- A quote in a function name ends its literal early, and a backslash at the end of a
package id takes the closing quote into it. -/
theorem shim_broken :
    (∀ text, CorePluginExternalFunction.getPreRunJs ⟨"f", "say\"hi", "", "", "files"⟩ = some text →
      ¬ DenotesNames true text "files" "say\"hi" ∧ ¬ DenotesNames false text "files" "say\"hi") ∧
    ∀ text, ExternalFnRef.getPreRunJs ⟨"f", "read", "C:\\"⟩ = some text →
      ¬ DenotesNames true text "C:\\" "read" ∧ ¬ DenotesNames false text "C:\\" "read" := by
  have hquote : ¬ PlainName "say\"hi" := by decide
  have hslash : ¬ PlainName "C:\\" := by decide
  refine ⟨fun text h => ?_, fun text h => ?_⟩
  · obtain rfl := Option.some.inj h
    simp only [denotesNames_iff, hquote, and_false, not_false_eq_true, and_self]
  · obtain rfl := Option.some.inj h
    simp only [denotesNames_iff, hslash, false_and, not_false_eq_true, and_self]

end Sapphillon.ShimText
