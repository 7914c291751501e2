import Sapphillon.Routing

/-! Which function answers a key, read off the packages of a workflow as they are listed: the
routing table, the search of the packages and the cutting of the key together pick the last
internal function with the key as its id, or else a function of the first package named before
the first separator. -/
namespace Sapphillon.ListedRoutes
open Plugin Sapphillon.Runtime Dispatch Routing Workflow

/-- Where a key leads. -/
inductive Route where
  | internal (f : InternalFnRef)
  | external (p : CorePluginExternalPackage) (funcName : String)
  | unknown

/-- No internal function of a list has the key as its id. -/
def NoneInternal (functions : List PluginFunction) (key : String) : Prop :=
  ∀ f, .internal f ∈ functions → f.id ≠ key

/-- The package is listed, and no external package before it has its id. -/
def FirstPackage (packages : List PluginPackage) (p : CorePluginExternalPackage) : Prop :=
  ∃ before after, packages = before ++ .external p :: after ∧
    ∀ q, .external q ∈ before → q.id ≠ p.id

/-- What a listing says about a key. -/
inductive Answers (packages : List PluginPackage) (key : String) : Route → Prop where
  | internal {before after : List PluginFunction} {f : InternalFnRef}
      (listed : packages.flatMap PluginPackage.getFunctions = before ++ .internal f :: after)
      (id : f.id = key) (last : NoneInternal after key) : Answers packages key (.internal f)
  | external {p : CorePluginExternalPackage} {funcName : String}
      (no_internal : NoneInternal (packages.flatMap PluginPackage.getFunctions) key)
      (key_eq : key = opKey p.id funcName) (separable : Separable p.id)
      (first : FirstPackage packages p) : Answers packages key (.external p funcName)
  | unknown (no_internal : NoneInternal (packages.flatMap PluginPackage.getFunctions) key)
      (no_package : ∀ p funcName, .external p ∈ packages → Separable p.id → key ≠ opKey p.id funcName) :
      Answers packages key .unknown

/-- The route `dispatch_impl` takes. -/
def routeOf (ctx : DispatchCtx) (key : String) : Route :=
  match ctx.internal.lookup key with
  | some f => .internal f
  | none =>
    match externalRoute ctx key with
    | some (p, funcName) => .external p funcName
    | none => .unknown

variable (world : World)

/-- What a route does with a call. -/
def Route.dispatch (time : Nat) (ctx : DispatchCtx) (key argsJson : String) :
    Route → Traced DispatchEvent String String
  | .internal f => dispatchInternal world time f argsJson
  | .external p funcName => dispatchExternal world time ctx p funcName argsJson
  | .unknown => unknownOpKey key

theorem dispatchImpl_route (time : Nat) (ctx : DispatchCtx) (key argsJson : String) :
    dispatchImpl world time ctx key argsJson =
      (routeOf ctx key).dispatch world time ctx key argsJson := by
  unfold routeOf
  cases hi : ctx.internal.lookup key with
  | some f => exact dispatchImpl_internal world hi argsJson
  | none =>
    cases hroute : externalRoute ctx key with
    | some route => exact dispatchImpl_external world hi hroute argsJson
    | none => exact dispatchImpl_unknown world hi hroute argsJson

/-! ### The table and the search -/

theorem filterMap_eq_split {α β : Type*} {f : α → Option β} {l : List α} {before after : List β}
    {b : β} (h : l.filterMap f = before ++ b :: after) :
    ∃ l₁ a l₂, l = l₁ ++ a :: l₂ ∧ l₁.filterMap f = before ∧ f a = some b ∧
      l₂.filterMap f = after := by
  obtain ⟨l₁, rest, rfl, hbefore, hrest⟩ := List.filterMap_eq_append_iff.mp h
  obtain ⟨l₂, a, l₃, rfl, hnone, ha, hafter⟩ := List.filterMap_eq_cons_iff.mp hrest
  refine ⟨l₁ ++ l₂, a, l₃, by simp, ?_, ha, hafter⟩
  rw [List.filterMap_append, hbefore, List.filterMap_eq_nil_iff.mpr hnone, List.append_nil]

theorem noneInternal_iff {functions : List PluginFunction} {key : String} :
    NoneInternal functions key ↔
      ∀ e ∈ functions.filterMap CoreWorkflowCode.internalEntry, key ≠ e.1 := by
  simp only [NoneInternal, List.mem_filterMap]
  constructor
  · intro h e he
    obtain ⟨g, hg, hentry⟩ := he
    cases g with
    | external g => cases hentry
    | internal g =>
      obtain rfl := Option.some.inj hentry
      exact (h g hg).symm
  · intro h f hf he
    exact h (f.id, f) ⟨_, hf, rfl⟩ he.symm

variable {w : CoreWorkflowCode} {key : String}

/-- The table holds the last function listed for a key. -/
theorem lookup_listed {f : InternalFnRef} :
    w.dispatchCtx.internal.lookup key = some f ↔
      ∃ before after, w.pluginPackages.flatMap PluginPackage.getFunctions =
        before ++ .internal f :: after ∧ f.id = key ∧ NoneInternal after key := by
  rw [w.dispatchCtx_internal, List.lookup_eq_some_iff]
  constructor
  · intro h
    obtain ⟨l₁, l₂, hsplit, hfirst⟩ := h
    have hlist := congrArg List.reverse hsplit
    simp only [List.reverse_reverse, List.reverse_append, List.reverse_cons, List.append_assoc,
      List.singleton_append] at hlist
    obtain ⟨before, g, after, hfunctions, _, hg, hafter⟩ := filterMap_eq_split hlist
    cases g with
    | external g => cases hg
    | internal g =>
      obtain ⟨hid, rfl⟩ := Prod.mk.inj (Option.some.inj hg)
      refine ⟨before, after, hfunctions, hid, noneInternal_iff.mpr fun e he => ?_⟩
      rw [hafter, List.mem_reverse] at he
      simpa using hfirst e he
  · intro h
    obtain ⟨before, after, hfunctions, rfl, hlast⟩ := h
    refine ⟨(after.filterMap CoreWorkflowCode.internalEntry).reverse,
      (before.filterMap CoreWorkflowCode.internalEntry).reverse, ?_, fun e he => ?_⟩
    · rw [hfunctions, List.filterMap_append, List.filterMap_cons]
      simp [CoreWorkflowCode.internalEntry]
    · simpa using noneInternal_iff.mp hlast e (List.mem_reverse.mp he)

theorem lookup_none_listed :
    w.dispatchCtx.internal.lookup key = none ↔
      NoneInternal (w.pluginPackages.flatMap PluginPackage.getFunctions) key := by
  rw [w.dispatchCtx_internal, List.lookup_eq_none_iff, noneInternal_iff]
  simp

/-- A key is cut into a package id and a name exactly when it is their key and the id cannot be
confused with the separator. -/
theorem splitOpKey_eq_some_iff {pkgId funcName : String} :
    splitOpKey key = some (pkgId, funcName) ↔ key = opKey pkgId funcName ∧ Separable pkgId := by
  constructor
  · intro h
    have hkey : key = opKey pkgId funcName := by
      rw [← String.toList_inj, toList_opKey]
      exact StdStr.splitOnce_eq_append (splitOpKey_eq_some.mp h)
    rw [hkey] at h
    exact ⟨hkey, (splitOpKey_opKey_iff pkgId funcName).mp h⟩
  · intro h
    obtain ⟨rfl, hsep⟩ := h
    exact (splitOpKey_opKey_iff pkgId funcName).mpr hsep

/-- The search finds the first package listed under an id. -/
theorem find?_listed {p : CorePluginExternalPackage} {pkgId : String} :
    w.dispatchCtx.external.find? (fun q => q.id == pkgId) = some p ↔
      p.id = pkgId ∧ FirstPackage w.pluginPackages p := by
  have hbefore {before : List PluginPackage} :
      (∀ q ∈ before.filterMap PluginPackage.asExternalPackage, q.id ≠ pkgId) ↔
        ∀ q, .external q ∈ before → q.id ≠ pkgId := by
    constructor
    · exact fun h q hq => h q (List.mem_filterMap.mpr ⟨_, hq, rfl⟩)
    · intro h q hq
      obtain ⟨pkg, hpkg, hq⟩ := List.mem_filterMap.mp hq
      cases pkg with
      | core c => cases hq
      | external q' =>
        obtain rfl := Option.some.inj hq
        exact h _ hpkg
  rw [w.dispatchCtx_external, List.find?_eq_some_iff_append, beq_iff_eq]
  refine and_congr_right fun hid => ?_
  constructor
  · intro h
    obtain ⟨before, after, hsplit, hfirst⟩ := h
    obtain ⟨l₁, pkg, l₂, hpackages, hl₁, hpkg, _⟩ := filterMap_eq_split hsplit
    cases pkg with
    | core c => cases hpkg
    | external p' =>
      obtain rfl := Option.some.inj hpkg
      refine ⟨l₁, l₂, hpackages, ?_⟩
      rw [hid]
      exact hbefore.mp (by rw [hl₁]; simpa using hfirst)
  · intro h
    obtain ⟨before, after, hpackages, hfirst⟩ := h
    rw [hid] at hfirst
    refine ⟨before.filterMap PluginPackage.asExternalPackage,
      after.filterMap PluginPackage.asExternalPackage, ?_, by simpa using hbefore.mpr hfirst⟩
    rw [hpackages, List.filterMap_append, List.filterMap_cons]
    rfl

theorem find?_none_listed {pkgId : String} :
    w.dispatchCtx.external.find? (fun q => q.id == pkgId) = none ↔
      ∀ p, .external p ∈ w.pluginPackages → p.id ≠ pkgId := by
  rw [w.dispatchCtx_external, List.find?_eq_none]
  constructor
  · exact fun h p hp => by simpa using h p (List.mem_filterMap.mpr ⟨_, hp, rfl⟩)
  · intro h p hp
    obtain ⟨pkg, hpkg, hp⟩ := List.mem_filterMap.mp hp
    cases pkg with
    | core c => cases hp
    | external p' =>
      obtain rfl := Option.some.inj hp
      simpa using h _ hpkg

/-! ### The listing decides -/

theorem route_external_iff {p : CorePluginExternalPackage} {funcName : String} :
    externalRoute w.dispatchCtx key = some (p, funcName) ↔
      key = opKey p.id funcName ∧ Separable p.id ∧ FirstPackage w.pluginPackages p := by
  simp only [externalRoute_eq_some, splitOpKey_eq_some_iff, find?_listed]
  constructor
  · intro h
    obtain ⟨_, ⟨hkey, hsep⟩, rfl, hfirst⟩ := h
    exact ⟨hkey, hsep, hfirst⟩
  · intro h
    obtain ⟨hkey, hsep, hfirst⟩ := h
    exact ⟨p.id, ⟨hkey, hsep⟩, rfl, hfirst⟩

/-- The listing has an answer for the route that is taken. -/
theorem answers_routeOf : Answers w.pluginPackages key (routeOf w.dispatchCtx key) := by
  unfold routeOf
  cases hi : w.dispatchCtx.internal.lookup key with
  | some f =>
    obtain ⟨_, _, hlisted, hid, hlast⟩ := lookup_listed.mp hi
    exact .internal hlisted hid hlast
  | none =>
    have hno := lookup_none_listed.mp hi
    cases hroute : externalRoute w.dispatchCtx key with
    | some route =>
      obtain ⟨hkey, hsep, hfirst⟩ := route_external_iff.mp hroute
      exact .external hno hkey hsep hfirst
    | none =>
      refine .unknown hno fun p funcName hp hsep hkey => ?_
      have hsplit := splitOpKey_eq_some_iff.mpr ⟨hkey, hsep⟩
      cases hfind : w.dispatchCtx.external.find? (fun q => q.id == p.id) with
      | none => exact find?_none_listed.mp hfind p hp rfl
      | some q =>
        rw [externalRoute_eq_some.mpr ⟨p.id, hsplit, hfind⟩] at hroute
        cases hroute

/-- The listing has no other answer. -/
theorem routeOf_of_answers {r : Route} (h : Answers w.pluginPackages key r) :
    routeOf w.dispatchCtx key = r := by
  unfold routeOf
  cases h with
  | internal listed id last =>
    rw [lookup_listed.mpr ⟨_, _, listed, id, last⟩]
  | external no_internal key_eq separable first =>
    rw [lookup_none_listed.mpr no_internal, route_external_iff.mpr ⟨key_eq, separable, first⟩]
  | unknown no_internal no_package =>
    have hroute : externalRoute w.dispatchCtx key = none := by
      cases hroute : externalRoute w.dispatchCtx key with
      | none => rfl
      | some route =>
        obtain ⟨hkey, hsep, before, after, hpackages, _⟩ := route_external_iff.mp hroute
        exact absurd hkey (no_package _ _ (by rw [hpackages]; simp) hsep)
    rw [lookup_none_listed.mpr no_internal, hroute]

variable (w key) in
/-- Every key has one answer in the listing of the packages, and a dispatched call does what this
answer does. -/
theorem dispatch_follows_listing (time : Nat) (argsJson : String) :
    ∃ r, (∀ r', Answers w.pluginPackages key r' ↔ r' = r) ∧
      dispatchImpl world time w.dispatchCtx key argsJson =
        r.dispatch world time w.dispatchCtx key argsJson := by
  refine ⟨routeOf w.dispatchCtx key, fun r' => ?_, dispatchImpl_route world time _ key argsJson⟩
  constructor
  · exact fun h => (routeOf_of_answers h).symm
  · intro h
    rw [h]
    exact answers_routeOf

end Sapphillon.ListedRoutes
