import Sapphillon.Workflow

/-! The functions `extract_used_plugins` reports against the functions the text refers to. The
dot accessor of a function is also found at the start of a longer name. Which characters
continue an identifier is a parameter. -/
namespace Sapphillon.UsedPlugins
open StdStr Grouping Plugin Workflow

/-! ### References -/

variable (continues : Char → Bool)

/-- `pat` occurs in `code` and the character behind it, if any, does not continue it. -/
def OccursWhole (code pat : List Char) : Prop :=
  ∃ before after, code = before ++ pat ++ after ∧ ∀ c, after.head? = some c → continues c = false

def occursWhole (code pat : List Char) : Bool :=
  code.tails.any fun t => startsWith t pat && !(t.drop pat.length).head?.any continues

theorem occursWhole_iff (code pat : List Char) :
    occursWhole continues code pat = true ↔ OccursWhole continues code pat := by
  have hnext (after : List Char) : (!after.head?.any continues) = true ↔
      ∀ c, after.head? = some c → continues c = false := by
    cases after.head? <;> simp
  simp only [occursWhole, List.any_eq_true, List.mem_tails, Bool.and_eq_true, hnext, startsWith,
    List.isPrefixOf_iff_prefix]
  constructor
  · intro h
    obtain ⟨t, ⟨before, rfl⟩, ⟨after, rfl⟩, hafter⟩ := h
    rw [List.drop_left] at hafter
    exact ⟨before, after, (List.append_assoc _ _ _).symm, hafter⟩
  · intro h
    obtain ⟨before, after, rfl, hafter⟩ := h
    refine ⟨pat ++ after, ⟨before, (List.append_assoc _ _ _).symm⟩, List.prefix_append _ _, ?_⟩
    rwa [List.drop_left]

theorem not_occursWhole_iff (code pat : List Char) :
    ¬ OccursWhole continues code pat ↔ ∀ before after, code = before ++ pat ++ after →
      ∃ c, after.head? = some c ∧ continues c = true := by
  simp [OccursWhole]

instance (code pat : List Char) : Decidable (OccursWhole continues code pat) :=
  decidable_of_iff _ (occursWhole_iff continues code pat)

theorem OccursWhole.contains {code pat : List Char} (h : OccursWhole continues code pat) :
    contains code pat = true := by
  obtain ⟨before, after, rfl, _⟩ := h
  exact (contains_iff _ _).mpr ⟨before, after, rfl⟩

/-- The text refers to a function, by its dot accessor or by its bracket accessor. -/
def References (code pkg func : String) : Prop :=
  OccursWhole continues code.toList (dotAccessor pkg func).toList ∨
    contains code.toList (bracketAccessor pkg func).toList = true

instance (code pkg func : String) : Decidable (References continues code pkg func) :=
  inferInstanceAs (Decidable (_ ∨ _))

/-- The dot accessor occurs, each time with an identifier going on behind it, and the bracket
accessor does not occur. -/
structure OnlyInLongerName (code pkg func : String) : Prop where
  found : (dotAccessor pkg func).toList <:+: code.toList
  goesOn : ∀ before after, code.toList = before ++ (dotAccessor pkg func).toList ++ after →
    ∃ c, after.head? = some c ∧ continues c = true
  noBracket : ¬ (bracketAccessor pkg func).toList <:+: code.toList

/-- The test of the loop in `extract_used_plugins`. -/
def mentions (code pkg func : String) : Bool :=
  contains code.toList (dotAccessor pkg func).toList ||
    contains code.toList (bracketAccessor pkg func).toList

theorem mentions_of_references {code pkg func : String} (h : References continues code pkg func) :
    mentions code pkg func = true := by
  rw [mentions, Bool.or_eq_true]
  exact h.imp_left (OccursWhole.contains continues)

/-- The test goes wrong exactly on the names found in longer names only. -/
theorem references_of_mentions_iff (code pkg func : String) :
    (mentions code pkg func = true → References continues code pkg func) ↔
      ¬ OnlyInLongerName continues code pkg func := by
  rw [mentions, Bool.or_eq_true]
  constructor
  · intro h honly
    cases h (Or.inl ((contains_iff _ _).mpr honly.found)) with
    | inl hwhole => exact (not_occursWhole_iff continues _ _).mpr honly.goesOn hwhole
    | inr hbracket => exact honly.noBracket ((contains_iff _ _).mp hbracket)
  · intro h hfound
    by_contra hno
    obtain ⟨hwhole, hbracket⟩ := not_or.mp hno
    refine h ⟨?_, (not_occursWhole_iff continues _ _).mp hwhole, fun hb => ?_⟩
    · exact (contains_iff _ _).mp (hfound.resolve_right hbracket)
    · exact hbracket ((contains_iff _ _).mpr hb)

/-! ### The report -/

/-- The functions of the packages, in package and function order. -/
def listedFunctions (pkgs : List CorePluginPackage) :
    List (CorePluginPackage × CorePluginFunction) :=
  pkgs.flatMap fun pkg => pkg.functions.map fun func => (pkg, func)

def identifierOf (listed : CorePluginPackage × CorePluginFunction) : PluginIdentifier :=
  { packageId := listed.1.id, functionName := listed.2.name }

/-- The functions the text refers to. -/
def referencedPlugins (code : String) (pkgs : List CorePluginPackage) : List PluginIdentifier :=
  ((listedFunctions pkgs).filter fun listed =>
    decide (References continues code listed.1.name listed.2.name)).map identifierOf

theorem extractUsedPlugins_eq (w : CoreWorkflowCode) (pkgs : List CorePluginPackage) :
    w.extractUsedPlugins pkgs = ((listedFunctions pkgs).filter fun listed =>
      mentions w.code listed.1.name listed.2.name).map identifierOf := by
  rw [listedFunctions, List.filter_flatMap, List.map_flatMap]
  refine List.flatMap_congr fun pkg _ => ?_
  rw [List.filter_map, List.map_map]
  exact filterMap_ite _ (identifierOf ∘ fun func => (pkg, func)) pkg.functions

theorem mem_listedFunctions {pkgs : List CorePluginPackage}
    {listed : CorePluginPackage × CorePluginFunction} :
    listed ∈ listedFunctions pkgs ↔ listed.1 ∈ pkgs ∧ listed.2 ∈ listed.1.functions := by
  obtain ⟨pkg, func⟩ := listed
  simp only [listedFunctions, List.mem_flatMap, List.mem_map, Prod.mk.injEq]
  constructor
  · intro h
    obtain ⟨_, hpkg, _, hfunc, rfl, rfl⟩ := h
    exact ⟨hpkg, hfunc⟩
  · intro h
    exact ⟨pkg, h.1, func, h.2, rfl, rfl⟩

/-- Exactly the functions the text refers to are reported, in order, when no listed function
is found in longer names only. -/
theorem used_plugins_exact_iff (w : CoreWorkflowCode) (pkgs : List CorePluginPackage) :
    w.extractUsedPlugins pkgs = referencedPlugins continues w.code pkgs ↔
      ∀ pkg ∈ pkgs, ∀ func ∈ pkg.functions,
        ¬ OnlyInLongerName continues w.code pkg.name func.name := by
  rw [extractUsedPlugins_eq, referencedPlugins, map_filter_eq_iff]
  · simp only [decide_eq_true_eq, references_of_mentions_iff, mem_listedFunctions]
    constructor
    · intro h pkg hpkg func hfunc
      exact h (pkg, func) ⟨hpkg, hfunc⟩
    · intro h listed hlisted
      exact h listed.1 hlisted.1 listed.2 hlisted.2
  · intro listed h
    exact mentions_of_references continues (of_decide_eq_true h)

def sampleFiles : CorePluginPackage :=
  ⟨"f", "files", [⟨"1", "read", fun _ _ => .ok .null, none⟩,
    ⟨"2", "readAll", fun _ _ => .ok .null, none⟩]⟩

def sampleReadAll : CoreWorkflowCode :=
  CoreWorkflowCode.new "w" "Sapphillon.files.readAll();" [] 1 [] []

/-- A name that starts another one is reported with it. -/
theorem used_plugins_reports_unused :
    sampleReadAll.extractUsedPlugins [sampleFiles] = [⟨"f", "read"⟩, ⟨"f", "readAll"⟩] ∧
      ¬ References (fun c => c.isAlphanum || c == '_' || c == '$') sampleReadAll.code
        "files" "read" ∧
      sampleReadAll.extractUsedPlugins [sampleFiles] ≠
        referencedPlugins (fun c => c.isAlphanum || c == '_' || c == '$') sampleReadAll.code
          [sampleFiles] := by
  decide

end Sapphillon.UsedPlugins
