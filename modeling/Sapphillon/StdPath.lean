import Sapphillon.PathText
import Mathlib.Data.List.DropRight

/-! The part of `std::path` on Unix the program rests on: a path is its raw text, and
`components`, `push`, `pop` and `starts_with` read that text again at every call. -/
namespace Sapphillon.StdPath
open LexicalPath PathText

inductive Component where
  | rootDir
  | curDir
  | parentDir
  | normal (name : List Char)
deriving DecidableEq, Repr

/-- The raw text of a path; two paths are equal in Rust when their components are. -/
structure PathBuf where
  inner : List Char
deriving DecidableEq, Repr

namespace PathBuf

def new : PathBuf := ⟨[]⟩

def ofString (s : String) : PathBuf := ⟨s.toList⟩

def hasRoot (p : PathBuf) : Bool := isAbsolute p.inner

end PathBuf

/-- The root or leading dot of a text, and the body behind it. -/
def splitBody : List Char → List Char × List Char
  | '/' :: body => (['/'], body)
  | ['.'] => (['.'], [])
  | '.' :: '/' :: body => (['.'], '/' :: body)
  | text => ([], text)

def parseSingleComponent (piece : List Char) : Option Component :=
  if piece = [] ∨ piece = ['.'] then none
  else if piece = ['.', '.'] then some .parentDir
  else some (.normal piece)

def isGap (piece : List Char) : Bool := (parseSingleComponent piece).isNone

namespace PathBuf

def components (p : PathBuf) : List Component :=
  let (front, body) := splitBody p.inner
  let start := match front with
    | ['/'] => [.rootDir]
    | ['.'] => [.curDir]
    | _ => []
  start ++ (body.splitOn '/').filterMap parseSingleComponent

/-- The text without its final component and the separators before it. -/
def parent (p : PathBuf) : Option PathBuf :=
  let (front, body) := splitBody p.inner
  match (body.splitOn '/').rdropWhile isGap with
  | [] => if front = ['.'] then some new else none
  | piece :: rest =>
    some ⟨front ++ ['/'].intercalate ((piece :: rest).dropLast.rdropWhile isGap)⟩

def pop (p : PathBuf) : PathBuf := p.parent.getD p

/-- A rooted argument replaces the buffer; otherwise a separator is added when needed. -/
def push (p path : PathBuf) : PathBuf :=
  let needSep := p.inner.getLast?.any (· != '/')
  if path.hasRoot then path
  else if needSep then ⟨p.inner ++ '/' :: path.inner⟩
  else ⟨p.inner ++ path.inner⟩

def startsWith (p base : PathBuf) : Bool := base.components.isPrefixOf p.components

end PathBuf

def Component.asPath : Component → PathBuf
  | .rootDir => ⟨['/']⟩
  | .curDir => ⟨['.']⟩
  | .parentDir => ⟨['.', '.']⟩
  | .normal name => ⟨name⟩

/-- The step of a walk a component stands for. -/
def Component.step? : Component → Option (Step (List Char))
  | .rootDir | .curDir => none
  | .parentDir => some .up
  | .normal name => some (.down name)

theorem step?_parseSingleComponent (piece : List Char) :
    (parseSingleComponent piece).bind Component.step? = readStep piece := by
  unfold parseSingleComponent readStep
  split
  · rfl
  · split <;> rfl

theorem parseSingleComponent_valid {name : List Char} (h : ValidName name) :
    parseSingleComponent name = some (.normal name) := by
  simp [parseSingleComponent, h.ne_nil, h.ne_dot, h.ne_dotDot]

theorem isGap_valid {name : List Char} (h : ValidName name) : isGap name = false := by
  simp [isGap, parseSingleComponent_valid h]

theorem filterMap_step?_pieces (body : List Char) :
    ((body.splitOn '/').filterMap parseSingleComponent).filterMap Component.step? =
      segments body := by
  rw [List.filterMap_filterMap, segments]
  exact List.filterMap_congr fun piece _ => step?_parseSingleComponent piece

/-- The components of a text spell its segments, whatever root or leading dot it has. -/
theorem filterMap_step?_components (p : PathBuf) :
    p.components.filterMap Component.step? = segments p.inner := by
  obtain ⟨text⟩ := p
  cases text using splitBody.fun_cases with
  | case1 body =>
    rw [segments_slash]
    exact filterMap_step?_pieces body
  | case2 => decide
  | case3 body =>
    have h := filterMap_step?_pieces ('/' :: body)
    rw [show segments ('.' :: '/' :: body) = segments ('/' :: body) by
      rw [segments_slash]; exact segments_join ['.'] body]
    exact h
  | case4 text h1 h2 h3 =>
    have h := filterMap_step?_pieces text
    have hs : splitBody text = ([], text) := splitBody.eq_4 text h1 h2 h3
    simpa [PathBuf.components, hs] using h

theorem rootDir_not_mem_pieces (body : List Char) :
    .rootDir ∉ (body.splitOn '/').filterMap parseSingleComponent := by
  intro h
  obtain ⟨piece, _, hp⟩ := List.mem_filterMap.mp h
  unfold parseSingleComponent at hp
  split at hp
  · cases hp
  · split at hp <;> cases hp

/-- A rooted text has its root as first component and nowhere else. -/
theorem components_absolute {p : PathBuf} (h : isAbsolute p.inner = true) :
    ∃ rest, p.components = .rootDir :: rest ∧ .rootDir ∉ rest := by
  obtain ⟨text⟩ := p
  cases text with
  | nil => simp [isAbsolute] at h
  | cons c body =>
    have hc : c = '/' := by simpa [isAbsolute] using h
    subst hc
    exact ⟨_, rfl, rootDir_not_mem_pieces body⟩

theorem components_relative {p : PathBuf} (h : isAbsolute p.inner = false) :
    .rootDir ∉ p.components := by
  obtain ⟨text⟩ := p
  cases text using splitBody.fun_cases with
  | case1 body => simp [isAbsolute] at h
  | case2 => decide
  | case3 body =>
    have hp := rootDir_not_mem_pieces ('/' :: body)
    exact fun hm => (List.mem_cons.mp hm).elim (fun he => by cases he) hp
  | case4 text h1 h2 h3 =>
    have hs : splitBody text = ([], text) := splitBody.eq_4 text h1 h2 h3
    simpa only [PathBuf.components, hs, List.nil_append] using rootDir_not_mem_pieces text

/-! ### Buffers in normal form -/

/-- The text `normalize` keeps: a root or nothing, then names with single slashes. -/
def buffer (absolute : Bool) (names : List (List Char)) : PathBuf :=
  ⟨(if absolute then ['/'] else []) ++ ['/'].intercalate names⟩

theorem intercalate_concat {names : List (List Char)} (h : names ≠ []) (n : List Char) :
    ['/'].intercalate (names ++ [n]) = ['/'].intercalate names ++ '/' :: n := by
  induction names with
  | nil => contradiction
  | cons a names ih =>
    cases names with
    | nil => simp
    | cons b names =>
      have hb := ih (by simp)
      simp only [List.cons_append] at hb ⊢
      rw [List.intercalate_cons_cons, hb, List.intercalate_cons_cons]
      simp only [List.append_assoc]

theorem not_isAbsolute_of_valid {n : List Char} (h : ValidName n) : isAbsolute n = false := by
  cases n with
  | nil => rfl
  | cons c n =>
    have hc : c ≠ '/' := fun he => h.no_slash (by simp [he])
    simp [isAbsolute, hc]

/-- A text that starts with a valid name has neither a root nor a leading dot. -/
theorem splitBody_valid {n : List Char} (h : ValidName n) (tail : List Char) :
    splitBody (n ++ tail) = ([], n ++ tail) := by
  refine splitBody.eq_4 _ ?_ ?_ ?_
  · intro body he
    cases n with
    | nil => exact h.ne_nil rfl
    | cons c n => exact h.no_slash (by simp [(List.cons.inj he).1])
  · intro he
    rcases List.append_eq_singleton_iff.mp he with ⟨hn, _⟩ | ⟨hn, _⟩
    · exact h.ne_nil hn
    · exact h.ne_dot hn
  · intro body he
    match n, h with
    | [], h => exact h.ne_nil rfl
    | [c], h => exact h.ne_dot (by simp [(List.cons.inj he).1])
    | c :: d :: n, h =>
      have hd : d = '/' := (List.cons.inj (List.cons.inj he).2).1
      exact h.no_slash (by simp [hd])

theorem splitBody_buffer (absolute : Bool) {names : List (List Char)}
    (h : ∀ n ∈ names, ValidName n) :
    splitBody (buffer absolute names).inner =
      (if absolute then ['/'] else [], ['/'].intercalate names) := by
  cases absolute with
  | true => rfl
  | false =>
    match names, h with
    | [], _ => rfl
    | [n], h => simpa [buffer] using splitBody_valid (h n (by simp)) []
    | n :: m :: names, h =>
      have hn := splitBody_valid (h n (by simp)) ('/' :: ['/'].intercalate (m :: names))
      simpa [buffer, List.intercalate_cons_cons] using hn

theorem pieces_intercalate {names : List (List Char)} (h : ∀ n ∈ names, ValidName n)
    (hne : names ≠ []) : (['/'].intercalate names).splitOn '/' = names :=
  List.splitOn_intercalate '/' (fun n hn => (h n hn).no_slash) hne

theorem components_buffer (absolute : Bool) {names : List (List Char)}
    (h : ∀ n ∈ names, ValidName n) :
    (buffer absolute names).components =
      (if absolute then [.rootDir] else []) ++ names.map .normal := by
  have hbody : ((['/'].intercalate names).splitOn '/').filterMap parseSingleComponent =
      names.map .normal := by
    by_cases hne : names = []
    · subst hne; rfl
    · rw [pieces_intercalate h hne,
        List.filterMap_congr fun n hn => parseSingleComponent_valid (h n hn)]
      simp
  cases absolute <;> simp [PathBuf.components, splitBody_buffer _ h, hbody]

theorem rdropWhile_isGap_valid {names : List (List Char)} (h : ∀ n ∈ names, ValidName n) :
    names.rdropWhile isGap = names :=
  List.rdropWhile_eq_self_iff.mpr fun hne => by simp [isGap_valid (h _ (List.getLast_mem hne))]

theorem buffer_concat (absolute : Bool) (names : List (List Char)) (m : List Char) :
    ∃ u, (buffer absolute (names ++ [m])).inner = u ++ m := by
  by_cases hne : names = []
  · subst hne
    exact ⟨if absolute then ['/'] else [], by simp [buffer]⟩
  · refine ⟨(if absolute then ['/'] else []) ++ (['/'].intercalate names ++ ['/']), ?_⟩
    simp [buffer, intercalate_concat hne]

/-- A buffer of names asks for a separator before the next name. -/
theorem needSep_buffer (absolute : Bool) {names : List (List Char)} {m : List Char}
    (hm : ValidName m) :
    (buffer absolute (names ++ [m])).inner.getLast?.any (· != '/') = true := by
  obtain ⟨u, hu⟩ := buffer_concat absolute names m
  have hlast := List.getLast_mem hm.ne_nil
  have hne : m.getLast hm.ne_nil ≠ '/' := fun he => hm.no_slash (he ▸ hlast)
  rw [hu, List.getLast?_append_of_ne_nil _ hm.ne_nil, List.getLast?_eq_some_getLast hm.ne_nil]
  simpa using hne

theorem push_buffer (absolute : Bool) {names : List (List Char)} {n : List Char}
    (h : ∀ m ∈ names, ValidName m) (hn : ValidName n) :
    (buffer absolute names).push ⟨n⟩ = buffer absolute (names ++ [n]) := by
  have hroot : (PathBuf.mk n).hasRoot = false := not_isAbsolute_of_valid hn
  rcases List.eq_nil_or_concat' names with rfl | ⟨names, m, rfl⟩
  · cases absolute <;> simp [PathBuf.push, hroot, buffer]
  · have hsep := @needSep_buffer absolute names m (h m (by simp))
    have hne : names ++ [m] ≠ [] := by simp
    simp only [PathBuf.push, hroot, hsep, Bool.false_eq_true, if_false, if_true]
    rw [buffer, buffer, intercalate_concat hne, List.append_assoc]

theorem pop_buffer (absolute : Bool) {names : List (List Char)} (h : ∀ m ∈ names, ValidName m) :
    (buffer absolute names).pop = buffer absolute names.dropLast := by
  have hfront : (if absolute then ['/'] else []) ≠ ['.'] := by cases absolute <;> decide
  have hdrop : ∀ m ∈ names.dropLast, ValidName m := fun m hm => h m (List.mem_of_mem_dropLast hm)
  by_cases hne : names = []
  · subst hne
    cases absolute <;> decide
  · have hpieces : (['/'].intercalate names).splitOn '/' = names := pieces_intercalate h hne
    obtain ⟨n, rest, rfl⟩ := List.exists_cons_of_ne_nil hne
    simp only [PathBuf.pop, PathBuf.parent, splitBody_buffer absolute h, hpieces,
      rdropWhile_isGap_valid h, rdropWhile_isGap_valid hdrop, Option.getD_some]
    rfl

end Sapphillon.StdPath
