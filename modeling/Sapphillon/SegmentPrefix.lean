import Sapphillon.CheckUrl
import Sapphillon.CheckPath
import Sapphillon.Coverage

/-! The two ancestor tests in terms of plain segment lists, and what the two-way test of
path lists decides. Rooted path texts are resolved piece by piece on a stack; URL paths are
cut at the slashes and not resolved. -/
namespace Sapphillon.SegmentPrefix
open LexicalPath PathText StdStr CheckPath CheckUrl Coverage Lines

/-! ### Paths -/

/-- One piece of a path text, read behind the segments already there. -/
def resolveStep (stack : List (List Char)) (piece : List Char) : List (List Char) :=
  if piece = [] ∨ piece = ['.'] then stack
  else if piece = ['.', '.'] then stack.dropLast
  else stack ++ [piece]

def segmentList (s : String) : List (List Char) := (s.toList.splitOn '/').foldl resolveStep []

theorem resolveStep_eq (stack : List (List Char)) (piece : List Char) :
    resolveStep stack piece = walk stack (readStep piece).toList := by
  unfold resolveStep readStep
  split
  · rfl
  · split <;> rfl

/-- The stack after the pieces read so far is where the walk of their steps stands. -/
theorem foldl_resolveStep (stack : List (List Char)) (pieces : List (List Char)) :
    pieces.foldl resolveStep stack = walk stack (pieces.filterMap readStep) := by
  induction pieces generalizing stack with
  | nil => rfl
  | cons piece pieces ih =>
    rw [List.foldl_cons, ih, resolveStep_eq, ← walk_append]
    cases h : readStep piece <;> simp [h]

theorem segmentList_eq (s : String) : segmentList s = names s :=
  foldl_resolveStep [] (s.toList.splitOn '/')

/-- Between lists of rooted texts coverage is the prefix order of the resolved segments. -/
theorem paths_cover_iff_leading_segments (a b : List String)
    (ha : ∀ x ∈ a, absolute x = true) (hb : ∀ y ∈ b, absolute y = true) :
    pathsCoverByAncestor a b = true ↔ ∀ y ∈ b, ∃ x ∈ a, segmentList x <+: segmentList y := by
  rw [pathsCoverByAncestor_iff]
  refine forall₂_congr fun y hy => exists_congr fun x => and_congr_right fun hx => ?_
  rw [pathCovers_absolute (ha x hx) (hb y hy), segmentList_eq, segmentList_eq]

theorem paths_cover_below_climbs :
    pathsCoverByAncestor ["/srv/../../data//x/"] ["//data/./x/y/..", "/data/x/z"] = true :=
  (paths_cover_iff_leading_segments ["/srv/../../data//x/"] ["//data/./x/y/..", "/data/x/z"]
    (by simp [absolute, isAbsolute]) (by simp [absolute, isAbsolute])).mpr (by decide)

instance : IsTrans String fun x y => pathCovers x y = true := ⟨fun _ _ _ => pathCovers_trans⟩

/-- The two-way test accepts exactly the lists that cover the same lists of paths. -/
theorem paths_cover_as_set_iff (a b : List String) :
    pathsCoverAsSet a b = true ↔
      ∀ c, pathsCoverByAncestor a c = pathsCoverByAncestor b c := by
  have hlists := coversAll_both_iff (R := fun x y => pathCovers x y = true) pathCovers_refl a b
  simp only [CoversAll, ← pathsCoverByAncestor_iff] at hlists
  rw [pathsCoverAsSet, Bool.and_eq_true, hlists]
  exact forall_congr' fun c => Bool.eq_iff_iff.symm

/-! ### URLs -/

/-- One URL opens another: the same origin, and the segments of its path, read without the
slashes at its end, lead those of the other path. -/
structure OriginAndSegments (ua ub : Url) : Prop where
  scheme : ua.scheme = ub.scheme
  host : ua.hostStr = ub.hostStr
  port : ua.portOrKnownDefault = ub.portOrKnownDefault
  path : trimEndMatches ua.path.toList '/' = [] ∨
    (trimEndMatches ua.path.toList '/').splitOn '/' <+: ub.path.toList.splitOn '/'

/-- Continuing at a segment boundary is leading by whole segments. -/
theorem continues_iff (a b : List Char) :
    Continues a b ↔ a = [] ∨ a.splitOn '/' <+: b.splitOn '/' := by
  rw [splitOn_prefix_iff]
  constructor
  · intro h
    obtain ⟨t, rfl, h⟩ := h
    obtain ha | rfl | ht := h
    · exact Or.inl ha
    · exact Or.inr (Or.inl (List.append_nil a))
    · obtain ⟨u, rfl⟩ := List.head?_eq_some_iff.mp ht
      exact Or.inr (Or.inr ⟨u, rfl⟩)
  · intro h
    obtain rfl | rfl | ⟨u, rfl⟩ := h
    · exact ⟨b, rfl, Or.inl rfl⟩
    · exact ⟨[], (List.append_nil b).symm, Or.inr (Or.inl rfl)⟩
    · exact ⟨'/' :: u, rfl, Or.inr (Or.inr rfl)⟩

variable (parse : String → Option Url)

theorem urlCovers_iff_segments (x y : String) :
    urlCovers parse x y = true ↔
      ∃ ub, parse y = some ub ∧ ∃ ua, parse x = some ua ∧ OriginAndSegments ua ub := by
  rw [urlCovers_iff]
  constructor
  · intro h
    obtain ⟨ua, ub, ha, hb, hs, hh, hp, hpath⟩ := h
    exact ⟨ub, hb, ua, ha, hs, hh, hp, (continues_iff _ _).mp ((pathPrefix_iff _ _).mp hpath)⟩
  · intro h
    obtain ⟨ub, hb, ua, ha, hs, hh, hp, hpath⟩ := h
    exact ⟨ua, ub, ha, hb, hs, hh, hp, (pathPrefix_iff _ _).mpr ((continues_iff _ _).mpr hpath)⟩

/-- Coverage of URLs is equality of origins with the prefix order of the path segments. -/
theorem urls_cover_iff_leading_segments (a b : List String) :
    urlsCoverByAncestor parse a b = true ↔
      ∀ y ∈ b, ∃ ub, parse y = some ub ∧
        ∃ x ∈ a, ∃ ua, parse x = some ua ∧ OriginAndSegments ua ub := by
  rw [urlsCoverByAncestor_iff]
  refine forall₂_congr fun y _ => ?_
  simp only [urlCovers_iff_segments]
  constructor
  · intro h
    obtain ⟨x, hx, ub, hb, hcover⟩ := h
    exact ⟨ub, hb, x, hx, hcover⟩
  · intro h
    obtain ⟨ub, hb, x, hx, hcover⟩ := h
    exact ⟨x, hx, ub, hb, hcover⟩

end Sapphillon.SegmentPrefix
