import Sapphillon.JsSyntax
import Sapphillon.ShimText

/-! The shim of an external function as a program: whatever plain names are pasted into it, its
text has the same syntax tree, with the names as string constants. -/
namespace Sapphillon.ShimProgram
open Plugin StringLiteral JsSyntax ShimText

/-- `globalThis.Sapphillon`. -/
def sapphillon : Expr := .member (.name "globalThis") "Sapphillon"

/-- `globalThis.Sapphillon["pkg"]`. -/
def packageObject (pkg : String) : Expr := .index sapphillon (.string pkg)

/-- The body of the installed function. -/
def shimBody (key : String) : List Stmt :=
  [.const "raw" (.call (.name "__sapphillon_dispatch")
    [.string key, .call (.member (.name "JSON") "stringify") [.coalesce (.name "args") (.object [])]]),
    .ret (.call (.member (.name "JSON") "parse") [.name "raw"])]

def shimProgram (pkg func : String) : List Stmt :=
  [.assign sapphillon (.coalesce sapphillon (.object [])),
    .assign (packageObject pkg) (.coalesce (packageObject pkg) (.object [])),
    .assign (.index (packageObject pkg) (.string func))
      (.function ["args"] (shimBody (opKey pkg func)))]

/-! ### The tokens -/

def sapphillonTokens : List Token :=
  [.word "globalThis", .symbol '.', .word "Sapphillon"]

def indexTokens (key : String) : List Token := [.symbol '[', .string key, .symbol ']']

def defaultTokens : List Token := [.coalesce, .symbol '\x7b', .symbol '\x7d', .symbol ';']

/-- `function(args) {` up to the key. -/
def headTokens : List Token :=
  [.symbol '=', .word "function", .symbol '(', .word "args", .symbol ')', .symbol '\x7b',
    .word "const", .word "raw", .symbol '=', .word "__sapphillon_dispatch", .symbol '(']

/-- From behind the key to the end. -/
def tailTokens : List Token :=
  [.symbol ',', .word "JSON", .symbol '.', .word "stringify", .symbol '(', .word "args", .coalesce,
    .symbol '\x7b', .symbol '\x7d', .symbol ')', .symbol ')', .symbol ';', .word "return",
    .word "JSON", .symbol '.', .word "parse", .symbol '(', .word "raw", .symbol ')', .symbol ';',
    .symbol '\x7d', .symbol ';']

def shimTokens (pkg func : String) : List Token :=
  List.flatten [sapphillonTokens, [.symbol '='], sapphillonTokens, defaultTokens,
    sapphillonTokens, indexTokens pkg, [.symbol '='], sapphillonTokens, indexTokens pkg,
    defaultTokens, sapphillonTokens, indexTokens pkg, indexTokens func, headTokens,
    [.string (opKey pkg func)], tailTokens]

theorem toList_assemble (pieces : List (String × String)) (last : String) :
    (assemble pieces last).toList =
      weave (pieces.map fun piece => (piece.1.toList, piece.2.toList)) last.toList := by
  induction pieces with
  | nil => rfl
  | cons piece pieces ih =>
    have hquote : "\"".toList = ['"'] := by decide
    simp [assemble, quoted, weave, ih, hquote]

/-- The code around the names, one piece at a time. -/
theorem weaveTokens_shim (pkg func : String) :
    weaveTokens ((shimPieces pkg func).map fun piece => (piece.1.toList, piece.2.toList))
      shimEnd.toList = some (shimTokens pkg func) := by
  have hroot : readCodes .between
      ("\nglobalThis.Sapphillon = globalThis.Sapphillon ?? \x7b\x7d;\n" ++
        "globalThis.Sapphillon[").toList =
      some (sapphillonTokens ++ [.symbol '='] ++ sapphillonTokens ++ defaultTokens ++
        sapphillonTokens ++ [.symbol '['], .between) := by decide +kernel
  have hpackage : readCodes .between "] = globalThis.Sapphillon[".toList =
      some ([.symbol ']', .symbol '='] ++ sapphillonTokens ++ [.symbol '['], .between) := by
    decide +kernel
  have hdefault : readCodes .between ("] ?? \x7b\x7d;\n" ++ "globalThis.Sapphillon[").toList =
      some ([.symbol ']'] ++ defaultTokens ++ sapphillonTokens ++ [.symbol '['], .between) := by
    decide +kernel
  have hmember : readCodes .between "][".toList = some ([.symbol ']', .symbol '['], .between) := by
    decide +kernel
  have hfunction : readCodes .between ("] = function(args) \x7b\n" ++
      "    const raw = __sapphillon_dispatch(\n" ++ "        ").toList =
      some (.symbol ']' :: headTokens, .between) := by decide +kernel
  have hend : readCodes .between shimEnd.toList = some (tailTokens, .between) := by decide +kernel
  simp only [shimPieces, List.map_cons, List.map_nil, weaveTokens, hroot, hpackage, hdefault, hmember,
    hfunction, hend, Mode.flush, Option.bind_eq_bind, Option.bind_some, Option.pure_def,
    List.nil_append, String.ofList_toList]
  rfl

theorem parse_shimTokens (pkg func : String) :
    parseStmts (2 * (shimTokens pkg func).length + 2) (shimTokens pkg func) =
      some (shimProgram pkg func, []) := by
  rfl

/-- Plain names are string tokens and nothing else in the text of a shim. -/
theorem lex_externalShim (strict : Bool) {pkg func : String} (hpkg : PlainName pkg)
    (hfunc : PlainName func) :
    lex strict (externalShim pkg func).toList = some (shimTokens pkg func) := by
  have hkey : PlainName (opKey pkg func) := (plainName_opKey pkg func).mpr ⟨hpkg, hfunc⟩
  have hplain : ∀ piece ∈ shimPieces pkg func, PlainName piece.2 := by
    simp only [shimPieces, List.forall_mem_cons]
    exact ⟨hpkg, hpkg, hpkg, hfunc, hkey, fun _ h => by cases h⟩
  have hcode : ∀ code ∈ (shimPieces pkg func).map Prod.fst, '"' ∉ code.toList := by
    change ∀ code ∈ (shimPieces "" "").map Prod.fst, '"' ∉ code.toList
    decide +kernel
  rw [externalShim_eq, toList_assemble]
  refine lex_weave (fun piece h => ?_) (by decide +kernel) (fun piece h => ?_)
    (weaveTokens_shim pkg func)
  · obtain ⟨p, hp, rfl⟩ := List.mem_map.mp h
    exact hcode p.1 (List.mem_map_of_mem hp)
  · obtain ⟨p, hp, rfl⟩ := List.mem_map.mp h
    exact hplain p hp

/-- The texts that plain names give are read as one program each, in which the names are string
constants, whatever function of whatever package it is. -/
theorem parse_preRunJs (strict : Bool) (f : CorePluginExternalFunction)
    (hpkg : PlainName f.packageId) (hname : PlainName f.name) :
    ∃ text, f.getPreRunJs = some text ∧ f.toRef.getPreRunJs = some text ∧
      parse strict text.toList = some (shimProgram f.packageId f.name) := by
  refine ⟨externalShim f.packageId f.name, rfl, rfl, ?_⟩
  simp only [parse, lex_externalShim strict hpkg hname, parse_shimTokens, Option.bind_eq_bind,
    Option.bind_some, Option.pure_def]

/-- A name may hold a line separator, a comment and the other quotes. -/
theorem parse_preRunJs_separator :
    ∃ text, (⟨"id", "read \u2028 // '", "", "", "files"⟩ : CorePluginExternalFunction).getPreRunJs =
        some text ∧
      parse true text.toList = some (shimProgram "files" "read \u2028 // '") := by
  obtain ⟨text, htext, _, hparse⟩ := parse_preRunJs true ⟨"id", "read \u2028 // '", "", "", "files"⟩
    (by decide) (by decide)
  exact ⟨text, htext, hparse⟩

end Sapphillon.ShimProgram
