import Sapphillon.StdPath
import Sapphillon.Coverage

/-! `utils/check_path.rs`: the ancestor test on normalized paths, and what it decides in
terms of the places the two texts denote. -/
namespace Sapphillon.CheckPath
open LexicalPath PathText StdPath

/-- One round of the loop in `normalize`. -/
def normalizeStep (out : PathBuf) (component : Component) : PathBuf :=
  match component with
  | .curDir => out
  | .parentDir => out.pop
  | c => out.push c.asPath

def normalize (p : PathBuf) : PathBuf := p.components.foldl normalizeStep PathBuf.new

def isAncestorOrEqual (ancestor descendant : PathBuf) : Bool :=
  let a := normalize ancestor
  let d := normalize descendant
  d.startsWith a

def pathsCoverByAncestor (a b : List String) : Bool :=
  if b.isEmpty then true
  else if a.isEmpty then false
  else b.all fun bEntry => a.any fun aEntry =>
    isAncestorOrEqual (PathBuf.ofString aEntry) (PathBuf.ofString bEntry)

def pathsCoverAsSet (a b : List String) : Bool :=
  pathsCoverByAncestor a b && pathsCoverByAncestor b a

/-- One grant path against one required path. -/
def pathCovers (a b : String) : Bool :=
  isAncestorOrEqual (PathBuf.ofString a) (PathBuf.ofString b)

theorem pathsCoverByAncestor_iff (a b : List String) :
    pathsCoverByAncestor a b = true ↔ ∀ y ∈ b, ∃ x ∈ a, pathCovers x y = true :=
  Coverage.all_any_iff pathCovers a b

theorem pathsCoverByAncestor_singleton (a : List String) (y : String) :
    pathsCoverByAncestor a [y] = true ↔ ∃ x ∈ a, pathCovers x y = true := by
  simp [pathsCoverByAncestor_iff]

/-! ### The loop invariant -/

/-- The buffer of the loop is always the normal form of the steps read so far. -/
theorem foldl_normalizeStep (absolute : Bool) (cs : List Component) {names : List (List Char)}
    (hroot : .rootDir ∉ cs) (hcs : ∀ n, .normal n ∈ cs → ValidName n)
    (hnames : ∀ n ∈ names, ValidName n) :
    cs.foldl normalizeStep (buffer absolute names) =
      buffer absolute (walk names (cs.filterMap Component.step?)) := by
  induction cs generalizing names with
  | nil => rfl
  | cons c cs ih =>
    have hroot' : .rootDir ∉ cs := fun h => hroot (List.mem_cons_of_mem _ h)
    have hcs' : ∀ n, .normal n ∈ cs → ValidName n := fun n h => hcs n (List.mem_cons_of_mem _ h)
    rw [List.foldl_cons]
    cases c with
    | rootDir => exact absurd List.mem_cons_self hroot
    | curDir => exact ih hroot' hcs' hnames
    | parentDir =>
      rw [normalizeStep, pop_buffer absolute hnames]
      exact ih hroot' hcs' fun n hn => hnames n (List.mem_of_mem_dropLast hn)
    | normal n =>
      have hn : ValidName n := hcs n List.mem_cons_self
      rw [show normalizeStep (buffer absolute names) (.normal n) =
        (buffer absolute names).push ⟨n⟩ from rfl, push_buffer absolute hnames hn]
      refine ih hroot' hcs' fun m hm => ?_
      cases List.mem_append.mp hm with
      | inl hm => exact hnames m hm
      | inr hm => exact List.mem_singleton.mp hm ▸ hn

theorem normal_mem_components {p : PathBuf} {n : List Char} (h : .normal n ∈ p.components) :
    ValidName n := by
  have hs : .down n ∈ segments p.inner := by
    rw [← filterMap_step?_components]
    exact List.mem_filterMap.mpr ⟨_, h, rfl⟩
  exact valid_of_mem_segments hs

/-- `normalize` rebuilds exactly the resolved segments of the text, rooted as the text is. -/
theorem normalize_eq (p : PathBuf) :
    normalize p = buffer (isAbsolute p.inner) (residue (segments p.inner)) := by
  have hsteps := filterMap_step?_components p
  have hvalid := @normal_mem_components p
  cases habs : isAbsolute p.inner with
  | true =>
    obtain ⟨rest, hc, hroot⟩ := components_absolute habs
    rw [hc] at hsteps hvalid
    rw [normalize, hc, ← hsteps]
    exact foldl_normalizeStep true rest hroot
      (fun n hn => hvalid (List.mem_cons_of_mem _ hn)) (fun n hn => absurd hn List.not_mem_nil)
  | false =>
    rw [normalize, ← hsteps]
    exact foldl_normalizeStep false p.components (components_relative habs)
      (fun n hn => hvalid hn) (fun n hn => absurd hn List.not_mem_nil)

theorem components_normalize (p : PathBuf) :
    (normalize p).components =
      (if isAbsolute p.inner then [.rootDir] else []) ++
        (residue (segments p.inner)).map .normal := by
  rw [normalize_eq, components_buffer _ fun n hn => valid_of_mem_residue hn]

/-! ### What the test decides -/

/-- The names left of a path text by `normalize`. -/
def names (s : String) : List (List Char) := residue (segments s.toList)

def absolute (s : String) : Bool := isAbsolute s.toList

theorem prefix_map_normal {a d : List (List Char)} :
    a.map Component.normal <+: d.map Component.normal ↔ a <+: d := by
  induction a generalizing d with
  | nil => simp
  | cons x a ih => cases d <;> simp [ih]

theorem prefix_root_map_normal {a d : List (List Char)} :
    a.map Component.normal <+: .rootDir :: d.map Component.normal ↔ a = [] := by
  cases a <;> simp

/-- The ancestor test compares what the two texts leave; a relative text that leaves
nothing is an ancestor of everything. -/
theorem pathCovers_iff (a b : String) :
    pathCovers a b = true ↔
      names a <+: names b ∧ (absolute a = absolute b ∨ (absolute a = false ∧ names a = [])) := by
  have hiff : pathCovers a b = true ↔
      (normalize (PathBuf.ofString a)).components <+: (normalize (PathBuf.ofString b)).components :=
    List.isPrefixOf_iff_prefix
  have hnil : names a = [] → names a <+: names b := fun h => h ▸ List.nil_prefix
  rw [hiff, components_normalize, components_normalize]
  change (if absolute a then _ else _) ++ (names a).map Component.normal <+:
    (if absolute b then _ else _) ++ (names b).map Component.normal ↔ _
  cases absolute a <;> cases absolute b
  · simp [prefix_map_normal]
  · simpa [prefix_root_map_normal] using hnil
  · cases names b <;> simp
  · simp [prefix_map_normal]

theorem pathCovers_refl (a : String) : pathCovers a a = true :=
  (pathCovers_iff a a).mpr ⟨List.prefix_refl _, Or.inl rfl⟩

theorem pathCovers_trans {a b c : String} (hab : pathCovers a b = true)
    (hbc : pathCovers b c = true) : pathCovers a c = true := by
  obtain ⟨hpab, hab⟩ := (pathCovers_iff a b).mp hab
  obtain ⟨hpbc, hbc⟩ := (pathCovers_iff b c).mp hbc
  refine (pathCovers_iff a c).mpr ⟨hpab.trans hpbc, ?_⟩
  cases hab with
  | inl hab =>
    rcases hbc with hbc | ⟨hb, hnb⟩
    · exact Or.inl (hab.trans hbc)
    · exact Or.inr ⟨hab.trans hb, List.prefix_nil.mp (hnb ▸ hpab)⟩
  | inr hab => exact Or.inr hab

/-- Two paths above one path lie above each other, in one of the two directions. -/
theorem pathCovers_comparable {a b c : String} (hac : pathCovers a c = true)
    (hbc : pathCovers b c = true) : pathCovers a b = true ∨ pathCovers b a = true := by
  obtain ⟨hpac, hac⟩ := (pathCovers_iff a c).mp hac
  obtain ⟨hpbc, hbc⟩ := (pathCovers_iff b c).mp hbc
  simp only [pathCovers_iff]
  obtain hac | ⟨ha, hna⟩ := hac
  · obtain hbc | ⟨hb, hnb⟩ := hbc
    · have hab : absolute a = absolute b := hac.trans hbc.symm
      exact (List.prefix_or_prefix_of_prefix hpac hpbc).imp (fun h => ⟨h, Or.inl hab⟩)
        fun h => ⟨h, Or.inl hab.symm⟩
    · exact Or.inr ⟨hnb ▸ List.nil_prefix, Or.inr ⟨hb, hnb⟩⟩
  · exact Or.inl ⟨hna ▸ List.nil_prefix, Or.inr ⟨ha, hna⟩⟩

/-- Between rooted texts the test is the prefix order of the resolved segments. -/
theorem pathCovers_absolute {a b : String} (ha : absolute a = true) (hb : absolute b = true) :
    pathCovers a b = true ↔ names a <+: names b := by
  simp [pathCovers_iff, ha, hb]

end Sapphillon.CheckPath
