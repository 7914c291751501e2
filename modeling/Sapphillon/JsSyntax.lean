import Sapphillon.StringLiteral

/-! A fragment of ECMAScript: from a text over tokens to a syntax tree. A text outside the
fragment, or one whose reading would depend on an inserted semicolon, has no tree. -/
namespace Sapphillon.JsSyntax
open StringLiteral

/-! ### Items: characters of code, and whole string literals -/

inductive Item where
  | code (c : Char)
  | literal (units : List UInt16)

/-- The items of a text, with at most so many reading steps. -/
def scan (strict : Bool) : Nat → List Char → Option (List Item)
  | _, [] => some []
  | 0, _ :: _ => none
  | n + 1, c :: text =>
    if c = '"' then
      match readLiteral strict text with
      | some (units, rest) => (scan strict n rest).map (.literal units :: ·)
      | none => none
    else (scan strict n text).map (.code c :: ·)

/-- More steps do not change a scan that went through. -/
theorem scan_mono {strict : Bool} {n m : Nat} {text : List Char} {items : List Item}
    (h : scan strict n text = some items) (hle : n ≤ m) : scan strict m text = some items := by
  induction n generalizing m text items with
  | zero =>
    cases text with
    | nil => cases m <;> simpa [scan] using h
    | cons c text => cases h
  | succ n ih =>
    obtain ⟨k, rfl⟩ : ∃ k, m = k + 1 := ⟨m - 1, by omega⟩
    cases text with
    | nil => simpa [scan] using h
    | cons c text =>
      have hk : n ≤ k := Nat.le_of_succ_le_succ hle
      by_cases hq : c = '"'
      · rw [scan, if_pos hq] at h ⊢
        cases hread : readLiteral strict text with
        | none => simp [hread] at h
        | some r =>
          simp only [hread] at h ⊢
          obtain ⟨rest, hrest, rfl⟩ := Option.map_eq_some_iff.mp h
          rw [ih hrest hk, Option.map_some]
      · rw [scan, if_neg hq] at h ⊢
        obtain ⟨rest, hrest, rfl⟩ := Option.map_eq_some_iff.mp h
        rw [ih hrest hk, Option.map_some]

/-- Code without quotes is scanned character by character. -/
theorem scan_code {strict : Bool} {n : Nat} {code rest : List Char} {items : List Item}
    (hcode : '"' ∉ code) (h : scan strict n rest = some items) :
    scan strict (code.length + n) (code ++ rest) = some (code.map .code ++ items) := by
  induction code with
  | nil => simpa using h
  | cons c code ih =>
    have hc : c ≠ '"' := fun he => hcode (he ▸ .head _)
    have hlen : (c :: code).length + n = (code.length + n) + 1 := by simp; omega
    rw [hlen, List.cons_append, scan, if_neg hc, ih fun hmem => hcode (.tail _ hmem)]
    rfl

/-- A plain text between quotes is scanned as one literal. -/
theorem scan_quoted {strict : Bool} {n : Nat} {content rest : List Char} {items : List Item}
    (hplain : ∀ c ∈ content, Plain c) (h : scan strict n rest = some items) :
    scan strict (n + 1) ('"' :: (content ++ '"' :: rest)) = some (.literal (utf16 content) :: items) := by
  rw [scan, if_pos rfl, (readLiteral_eq_utf16_iff strict content rest).mpr hplain]
  simp [h]

/-! ### Tokens -/

inductive Token where
  | word (w : String)
  | string (s : String)
  | symbol (c : Char)
  | coalesce
deriving DecidableEq, Repr

def isWordStart (c : Char) : Bool := c.isAlpha || c == '_' || c == '$'

def isWordChar (c : Char) : Bool := isWordStart c || c.isDigit

def isSymbol (c : Char) : Bool :=
  c ∈ ['.', ',', ';', ':', '=', '(', ')', '[', ']', '\x7b', '\x7d']

/-- Where the reading of code stands: between tokens, in a word, behind a word and its blanks,
or behind one question mark. -/
inductive Mode where
  | between
  | word (w : List Char)
  | behind
  | question
deriving DecidableEq, Repr

/-- The first character of a token, or a blank. -/
def start (c : Char) : Option (List Token × Mode) :=
  if c = ' ' ∨ c = '\n' then some ([], .between)
  else if isWordStart c then some ([], .word [c])
  else if isSymbol c then some ([.symbol c], .between)
  else if c = '?' then some ([], .question)
  else none

/-- A line break behind a word could end a statement, so the fragment has none there. -/
def readCode : Mode → Char → Option (List Token × Mode)
  | .between, c => start c
  | .behind, c => if c = ' ' then some ([], .behind) else if c = '\n' then none else start c
  | .word w, c =>
    if isWordChar c then some ([], .word (w ++ [c]))
    else if c = ' ' then some ([.word (String.ofList w)], .behind)
    else if c = '\n' then none
    else (start c).map fun (tokens, mode) => (.word (String.ofList w) :: tokens, mode)
  | .question, c => if c = '?' then some ([.coalesce], .between) else none

/-- The token that ends where a literal begins or the text is over. -/
def Mode.flush : Mode → Option (List Token)
  | .between | .behind => some []
  | .word w => some [.word (String.ofList w)]
  | .question => none

def tokens : Mode → List Item → Option (List Token)
  | mode, [] => mode.flush
  | mode, .code c :: items => do
    let (done, mode') ← readCode mode c
    let rest ← tokens mode' items
    return done ++ rest
  | mode, .literal units :: items => do
    let done ← mode.flush
    let s ← decode units
    let rest ← tokens .between items
    return done ++ .string (String.ofList s) :: rest

/-- The tokens of a run of code, and where it leaves the reading. -/
def readCodes : Mode → List Char → Option (List Token × Mode)
  | mode, [] => some ([], mode)
  | mode, c :: code => do
    let (done, mode') ← readCode mode c
    let (rest, mode'') ← readCodes mode' code
    return (done ++ rest, mode'')

theorem tokens_code {mode mode' : Mode} {code : List Char} {done rest : List Token}
    {items : List Item} (hcode : readCodes mode code = some (done, mode'))
    (h : tokens mode' items = some rest) :
    tokens mode (code.map .code ++ items) = some (done ++ rest) := by
  induction code generalizing mode done with
  | nil =>
    obtain ⟨rfl, rfl⟩ := Prod.mk.inj (Option.some.inj hcode)
    exact h
  | cons c code ih =>
    simp only [readCodes, Option.bind_eq_bind, Option.bind_eq_some_iff, Option.pure_def,
      Option.some.injEq, Prod.mk.injEq, Prod.exists] at hcode
    obtain ⟨first, mode₁, hfirst, second, mode₂, hsecond, rfl, rfl⟩ := hcode
    simp only [List.map_cons, List.cons_append, tokens, hfirst, Option.bind_eq_bind,
      Option.bind_some, ih hsecond, Option.pure_def, List.append_assoc]

theorem tokens_literal {mode : Mode} {text : List Char} {done rest : List Token}
    {items : List Item} (hmode : mode.flush = some done) (h : tokens .between items = some rest) :
    tokens mode (.literal (utf16 text) :: items) =
      some (done ++ .string (String.ofList text) :: rest) := by
  simp [tokens, hmode, decode_utf16, h]

/-- The tokens of a text. -/
def lex (strict : Bool) (text : List Char) : Option (List Token) :=
  (scan strict text.length text).bind (tokens .between)

/-! ### Code with quoted texts in it -/

/-- Pieces of code with a quoted text behind each, and the code behind the last one. -/
def weave : List (List Char × List Char) → List Char → List Char
  | [], last => last
  | (code, text) :: pieces, last => code ++ '"' :: (text ++ '"' :: weave pieces last)

def weaveItems : List (List Char × List Char) → List Char → List Item
  | [], last => last.map .code
  | (code, text) :: pieces, last =>
    code.map .code ++ .literal (utf16 text) :: weaveItems pieces last

/-- The tokens of each piece on its own, with a string token for each text. -/
def weaveTokens : List (List Char × List Char) → List Char → Option (List Token)
  | [], last => do
    let (done, mode) ← readCodes .between last
    let rest ← mode.flush
    return done ++ rest
  | (code, text) :: pieces, last => do
    let (done, mode) ← readCodes .between code
    let word ← mode.flush
    let rest ← weaveTokens pieces last
    return done ++ (word ++ .string (String.ofList text) :: rest)

theorem scan_weave {strict : Bool} {pieces : List (List Char × List Char)} {last : List Char}
    (hcode : ∀ piece ∈ pieces, '"' ∉ piece.1) (hlast : '"' ∉ last)
    (hplain : ∀ piece ∈ pieces, ∀ c ∈ piece.2, Plain c) :
    scan strict (weave pieces last).length (weave pieces last) = some (weaveItems pieces last) := by
  induction pieces with
  | nil =>
    have h : scan strict (last.length + 0) (last ++ []) = some (last.map .code ++ []) :=
      scan_code hlast rfl
    simpa [weave, weaveItems] using h
  | cons piece pieces ih =>
    obtain ⟨code, text⟩ := piece
    obtain ⟨hc, hcode⟩ := List.forall_mem_cons.mp hcode
    obtain ⟨ht, hplain⟩ := List.forall_mem_cons.mp hplain
    have hrest := scan_quoted ht (ih hcode hplain)
    have hmore : (weave pieces last).length + 1 ≤
        ('"' :: (text ++ '"' :: weave pieces last)).length := by
      simp only [List.length_cons, List.length_append]
      omega
    have hall := scan_code hc (scan_mono hrest hmore)
    rw [weave, List.length_append]
    exact hall

/-- A text between the quotes of a program is one string token, and the code around it is read
as if it stood alone. -/
theorem lex_weave {strict : Bool} {pieces : List (List Char × List Char)} {last : List Char}
    (hcode : ∀ piece ∈ pieces, '"' ∉ piece.1) (hlast : '"' ∉ last)
    (hplain : ∀ piece ∈ pieces, ∀ c ∈ piece.2, Plain c) {all : List Token}
    (h : weaveTokens pieces last = some all) : lex strict (weave pieces last) = some all := by
  rw [lex, scan_weave hcode hlast hplain, Option.bind_some]
  clear hcode hlast hplain
  induction pieces generalizing all with
  | nil =>
    simp only [weaveTokens, Option.bind_eq_bind, Option.bind_eq_some_iff, Option.pure_def,
      Option.some.injEq, Prod.exists] at h
    obtain ⟨done, mode, hcodes, rest, hflush, rfl⟩ := h
    have hall : tokens .between (last.map .code ++ []) = some (done ++ rest) :=
      tokens_code hcodes hflush
    simpa [weaveItems] using hall
  | cons piece pieces ih =>
    simp only [weaveTokens, Option.bind_eq_bind, Option.bind_eq_some_iff, Option.pure_def,
      Option.some.injEq, Prod.exists] at h
    obtain ⟨done, mode, hcodes, word, hflush, rest, hrest, rfl⟩ := h
    exact tokens_code hcodes (tokens_literal hflush (ih hrest))

/-! ### Syntax trees -/

mutual
inductive Expr where
  | name (x : String)
  | string (s : String)
  | object (fields : List (String × Expr))
  | member (e : Expr) (key : String)
  | index (e key : Expr)
  | call (f : Expr) (args : List Expr)
  | coalesce (e e' : Expr)
  | function (params : List String) (body : List Stmt)

inductive Stmt where
  | assign (target value : Expr)
  | const (x : String) (value : Expr)
  | ret (value : Expr)
  | expr (value : Expr)
end

/-- Words that are no names. -/
def reserved : List String :=
  ["await", "break", "case", "catch", "class", "const", "continue", "debugger", "default", "delete",
    "do", "else", "enum", "export", "extends", "false", "finally", "for", "function", "if",
    "import", "in", "instanceof", "let", "new", "null", "return", "static", "super", "switch",
    "this", "throw", "true", "try", "typeof", "var", "void", "while", "with", "yield"]

def isName (w : String) : Bool := !reserved.contains w

def isTarget : Expr → Bool
  | .member _ _ | .index _ _ => true
  | _ => false

/-- The names the statements of a body declare. -/
def declared : List Stmt → List String
  | [] => []
  | .const x _ :: rest => x :: declared rest
  | _ :: rest => declared rest

/-- No name is declared twice, and none that is a parameter. -/
def wellDeclared (params : List String) (body : List Stmt) : Bool :=
  (declared body).Nodup && (declared body).all fun x => !params.contains x

/-- The key a token stands for in front of a colon; `__proto__` is no ordinary one. -/
def fieldKey : Token → Option String
  | .word key | .string key => if key = "__proto__" then none else some key
  | _ => none

/-- The names of a parameter list, behind its opening parenthesis. -/
def parseParams : List Token → Option (List String × List Token)
  | .symbol ')' :: rest => some ([], rest)
  | .word x :: .symbol ')' :: rest => if isName x then some ([x], rest) else none
  | .word x :: .symbol ',' :: rest =>
    if isName x then (parseParams rest).map fun (xs, rest) => (x :: xs, rest) else none
  | _ => none

mutual
/-- An expression: operands joined by `??`. -/
def parseExpr : Nat → List Token → Option (Expr × List Token)
  | 0, _ => none
  | n + 1, tokens => do
    let (e, rest) ← parsePrimary n tokens
    match rest with
    | .coalesce :: rest => do
      let (e', rest) ← parseExpr n rest
      return (.coalesce e e', rest)
    | _ => return (e, rest)

def parsePrimary : Nat → List Token → Option (Expr × List Token)
  | 0, _ => none
  | n + 1, .word "function" :: .symbol '(' :: rest => do
    let (params, rest) ← parseParams rest
    match rest with
    | .symbol '\x7b' :: rest => do
      let (body, rest) ← parseStmts n rest
      match rest with
      | .symbol '\x7d' :: rest =>
        if wellDeclared params body then return (.function params body, rest) else none
      | _ => none
    | _ => none
  | n + 1, .symbol '\x7b' :: rest => do
    let (fields, rest) ← parseFields n rest
    return (.object fields, rest)
  | n + 1, .string s :: rest => parseSuffixes n (.string s) rest
  | n + 1, .word x :: rest => if isName x then parseSuffixes n (.name x) rest else none
  | _, _ => none

/-- Fields up to the closing brace. -/
def parseFields : Nat → List Token → Option (List (String × Expr) × List Token)
  | 0, _ => none
  | _ + 1, .symbol '\x7d' :: rest => some ([], rest)
  | n + 1, key :: .symbol ':' :: rest => do
    let key ← fieldKey key
    let (e, rest) ← parseExpr n rest
    match rest with
    | .symbol '\x7d' :: rest => return ([(key, e)], rest)
    | .symbol ',' :: rest => do
      let (fields, rest) ← parseFields n rest
      return ((key, e) :: fields, rest)
    | _ => none
  | _, _ => none

/-- Members, indices and argument lists behind an operand. -/
def parseSuffixes : Nat → Expr → List Token → Option (Expr × List Token)
  | 0, _, _ => none
  | n + 1, e, .symbol '.' :: .word key :: rest => parseSuffixes n (.member e key) rest
  | n + 1, e, .symbol '[' :: rest => do
    let (key, rest) ← parseExpr n rest
    match rest with
    | .symbol ']' :: rest => parseSuffixes n (.index e key) rest
    | _ => none
  | n + 1, e, .symbol '(' :: rest => do
    let (args, rest) ← parseArgs n rest
    parseSuffixes n (.call e args) rest
  | _ + 1, e, rest => some (e, rest)

/-- Arguments up to the closing parenthesis. -/
def parseArgs : Nat → List Token → Option (List Expr × List Token)
  | 0, _ => none
  | _ + 1, .symbol ')' :: rest => some ([], rest)
  | n + 1, tokens => do
    let (e, rest) ← parseExpr n tokens
    match rest with
    | .symbol ')' :: rest => return ([e], rest)
    | .symbol ',' :: rest => do
      let (args, rest) ← parseArgs n rest
      return (e :: args, rest)
    | _ => none

def parseStmt : Nat → List Token → Option (Stmt × List Token)
  | 0, _ => none
  | n + 1, .word "const" :: .word x :: .symbol '=' :: rest => do
    let (e, rest) ← parseExpr n rest
    match rest with
    | .symbol ';' :: rest => if isName x then return (.const x e, rest) else none
    | _ => none
  | n + 1, .word "return" :: rest => do
    let (e, rest) ← parseExpr n rest
    match rest with
    | .symbol ';' :: rest => return (.ret e, rest)
    | _ => none
  | n + 1, .word x :: rest => do
    let (target, rest) ← parsePrimary n (.word x :: rest)
    match rest with
    | .symbol '=' :: rest => do
      let (e, rest) ← parseExpr n rest
      match rest with
      | .symbol ';' :: rest => if isTarget target then return (.assign target e, rest) else none
      | _ => none
    | .symbol ';' :: rest => if isName x then return (.expr target, rest) else none
    | _ => none
  | _, _ => none

/-- Statements up to a closing brace or the end. -/
def parseStmts : Nat → List Token → Option (List Stmt × List Token)
  | 0, _ => none
  | _ + 1, [] => some ([], [])
  | _ + 1, .symbol '\x7d' :: rest => some ([], .symbol '\x7d' :: rest)
  | n + 1, tokens => do
    let (s, rest) ← parseStmt n tokens
    let (body, rest) ← parseStmts n rest
    return (s :: body, rest)
end

/-- The statements of a text. -/
def parse (strict : Bool) (text : List Char) : Option (List Stmt) := do
  let all ← lex strict text
  match ← parseStmts (2 * all.length + 2) all with
  | (body, []) => return body
  | _ => none

end Sapphillon.JsSyntax
