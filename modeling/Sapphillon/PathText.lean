import Sapphillon.LexicalPath
import Sapphillon.Lines
import Mathlib.Data.List.Basic

/-! What a Unix path text denotes: split at the slashes, drop the empty pieces and the
dots, read `..` as a climb, and resolve from the working directory. This is the purpose
the path checks are measured against; no buffer and no component iterator occurs here. -/
namespace Sapphillon.PathText
open LexicalPath Lines

/-- A name a directory entry can have. -/
structure ValidName (name : List Char) : Prop where
  ne_nil : name ≠ []
  ne_dot : name ≠ ['.']
  ne_dotDot : name ≠ ['.', '.']
  no_slash : '/' ∉ name

def readStep (piece : List Char) : Option (Step (List Char)) :=
  if piece = [] ∨ piece = ['.'] then none
  else if piece = ['.', '.'] then some .up
  else some (.down piece)

def segments (text : List Char) : List (Step (List Char)) :=
  (text.splitOn '/').filterMap readStep

def isAbsolute (text : List Char) : Bool := text.head? == some '/'

/-- The names from the root to the place `path` denotes in the directory `cwd`. -/
def location (cwd path : List Char) : List (List Char) :=
  residue (segments (if isAbsolute path then path else cwd ++ '/' :: path))

/-- The absolute text that spells a list of names. -/
def render (names : List (List Char)) : List Char := '/' :: ['/'].intercalate names

theorem readStep_valid {name : List Char} (h : ValidName name) :
    readStep name = some (.down name) := by
  simp [readStep, h.ne_nil, h.ne_dot, h.ne_dotDot]

theorem segments_join (a b : List Char) : segments (a ++ '/' :: b) = segments a ++ segments b := by
  rw [segments, List.splitOn_append_cons_self, List.filterMap_append]
  rfl

theorem segments_slash (b : List Char) : segments ('/' :: b) = segments b :=
  segments_join [] b

theorem valid_of_mem_segments {text name : List Char} (h : Step.down name ∈ segments text) :
    ValidName name := by
  obtain ⟨piece, hp, hr⟩ := List.mem_filterMap.mp h
  unfold readStep at hr
  split at hr
  · contradiction
  · split at hr
    · cases hr
    · rename_i h1 h2
      simp only [Option.some.injEq, Step.down.injEq] at hr
      subst hr
      exact ⟨fun he => h1 (Or.inl he), fun he => h1 (Or.inr he), h2, not_mem_of_mem_splitOn hp⟩

theorem valid_of_mem_residue {text name : List Char} (h : name ∈ residue (segments text)) :
    ValidName name :=
  valid_of_mem_segments ((mem_walk h).resolve_left List.not_mem_nil)

theorem segments_intercalate {names : List (List Char)} (h : ∀ n ∈ names, ValidName n) :
    segments (['/'].intercalate names) = names.map .down := by
  cases names with
  | nil => rfl
  | cons n names =>
    rw [segments, List.splitOn_intercalate '/' (fun l hl => (h l hl).no_slash) (by simp)]
    rw [List.filterMap_congr fun x hx => readStep_valid (h x hx)]
    simp

theorem segments_render {names : List (List Char)} (h : ∀ n ∈ names, ValidName n) :
    segments (render names) = names.map .down := by
  rw [render, segments_slash, segments_intercalate h]

theorem isAbsolute_render (names : List (List Char)) : isAbsolute (render names) = true := rfl

theorem location_absolute (cwd : List Char) {path : List Char} (h : isAbsolute path = true) :
    location cwd path = residue (segments path) := by
  simp [location, h]

theorem location_relative (cwd : List Char) {path : List Char} (h : isAbsolute path = false) :
    location cwd path = walk (residue (segments cwd)) (segments path) := by
  simp [location, h, segments_join, residue_append]

/-- Every list of valid names is the place of some working directory. -/
theorem residue_render {names : List (List Char)} (h : ∀ n ∈ names, ValidName n) :
    residue (segments (render names)) = names := by
  rw [segments_render h, residue_down]

theorem validNames_nontrivial : {n : List Char | ValidName n}.Nontrivial :=
  ⟨['x'], ⟨by decide, by decide, by decide, by decide⟩,
    ['y'], ⟨by decide, by decide, by decide, by decide⟩, by decide⟩

example : location "/home/u".toList "../v/./w".toList = ["home".toList, "v".toList, "w".toList] := by
  decide

end Sapphillon.PathText
