import Sapphillon.Dispatch
import Sapphillon.Workflow

/-! Whether the key an external function is dispatched under leads back to it. Ids and names
are free texts, so the separator may occur inside them, and the key of an external function
may also be the id of an internal one. -/
namespace Sapphillon.Routing
open StdStr ExtPlugin Permission Plugin Proto Sapphillon.Runtime Dispatch Workflow

/-- A dispatched call entered the client for one function of one module and did nothing
else. -/
structure RoutedTo (events : List DispatchEvent) (wasmPath funcName : String) : Prop where
  entered : ∃ args permissions, .client wasmPath funcName args permissions ∈ events
  no_internal : ∀ id args, .internalCall id args ∉ events
  only_client : ∀ wasm name args permissions, .client wasm name args permissions ∈ events →
    wasm = wasmPath ∧ name = funcName
  only_load : ∀ c, .load c ∈ events → c.manifest.wasm = wasmPath
  only_run : ∀ c, .run c ∈ events → c.manifest.wasm = wasmPath ∧ c.exportName = funcName

/-- A package id that cannot be confused with the separator. -/
def Separable (id : String) : Prop :=
  ¬ "::".toList <:+: id.toList ∧ id.toList.getLast? ≠ some ':'

instance (id : String) : Decidable (Separable id) := inferInstanceAs (Decidable (_ ∧ _))

/-- The parts of a key are given back exactly when the package id is separable. -/
theorem splitOpKey_opKey_iff (pkg func : String) :
    splitOpKey (opKey pkg func) = some (pkg, func) ↔ Separable pkg := by
  rw [splitOpKey_eq_some, toList_opKey, splitOnce_pair_iff]
  exact Iff.rfl

/-- The split of a key gives its parts back exactly for separable package ids, and between
external functions with such ids the key determines the package id and the name. -/
theorem op_key_codec_exact :
    (∀ pkg func : String, splitOpKey (opKey pkg func) = some (pkg, func) ↔ Separable pkg) ∧
    ∀ f g : CorePluginExternalFunction, Separable f.packageId → Separable g.packageId →
      opKey f.packageId f.name = opKey g.packageId g.name →
      f.packageId = g.packageId ∧ f.name = g.name := by
  refine ⟨splitOpKey_opKey_iff, fun f g hf hg hkey => ?_⟩
  have hsf := (splitOpKey_opKey_iff f.packageId f.name).mpr hf
  have hsg := (splitOpKey_opKey_iff g.packageId g.name).mpr hg
  rw [hkey, hsg] at hsf
  obtain ⟨hid, hname⟩ := Prod.mk.inj (Option.some.inj hsf)
  exact ⟨hid.symm, hname.symm⟩

theorem op_key_codec_colons :
    splitOpKey (opKey "a:b" ":read::x") = some ("a:b", ":read::x") :=
  (op_key_codec_exact.1 "a:b" ":read::x").mpr (by decide)

theorem find?_of_pairwise_ne {packages : List CorePluginExternalPackage}
    (h : packages.Pairwise fun p q => p.id ≠ q.id) {p : CorePluginExternalPackage}
    (hp : p ∈ packages) : packages.find? (fun q => q.id == p.id) = some p := by
  induction packages with
  | nil => cases hp
  | cons q packages ih =>
    obtain ⟨hq, hrest⟩ := List.pairwise_cons.mp h
    cases List.mem_cons.mp hp with
    | inl he => simp [he]
    | inr hp =>
      rw [List.find?_cons_of_neg (by simpa using hq p hp)]
      exact ih hrest hp

variable (world : World)

/-- A key with an external route leads to the route's package and function, and nowhere
else. -/
theorem routedTo_of_route {time : Nat} {ctx : DispatchCtx} {key funcName : String}
    {pkg : CorePluginExternalPackage} (hi : ctx.internal.lookup key = none)
    (hroute : externalRoute ctx key = some (pkg, funcName))
    (hload : ∃ package, (loadPackage world time pkg.wasmPath).result = .ok package)
    (argsJson : String) :
    RoutedTo (dispatchImpl world time ctx key argsJson).events pkg.wasmPath funcName := by
  rw [dispatchImpl_external world hi hroute]
  constructor
  case entered =>
    exact ⟨_, _, (client_mem_dispatchExternal world).mpr ⟨hload, rfl, rfl, rfl, rfl⟩⟩
  case no_internal =>
    intro id args
    exact internalCall_not_mem_dispatchExternal world
  case only_client =>
    intro wasm name args permissions h
    obtain ⟨_, hwasm, hname, _⟩ := (client_mem_dispatchExternal world).mp h
    exact ⟨hwasm, hname⟩
  case only_load =>
    intro c h
    rw [fromWasmPath_events _ _ ((load_mem_dispatchExternal world).mp h)]
    rfl
  case only_run =>
    intro c h
    obtain ⟨package, hload, hc⟩ := (run_mem_dispatchExternal world).mp h
    obtain ⟨_, hmanifest, hname⟩ := extpluginClient_events _ _ hc
    rw [hmanifest]
    exact ⟨fromWasmPath_wasmPath _ _ hload, hname⟩

/-- A call that entered the client for a function had an external route to that name. -/
theorem route_of_routedTo {time : Nat} {ctx : DispatchCtx} {key argsJson wasmPath funcName : String}
    (h : RoutedTo (dispatchImpl world time ctx key argsJson).events wasmPath funcName) :
    ctx.internal.lookup key = none ∧ ∃ pkg, externalRoute ctx key = some (pkg, funcName) := by
  obtain ⟨args, permissions, he⟩ := h.entered
  obtain ⟨_, _, he⟩ | ⟨pkg, name, hi, hroute, he⟩ := mem_dispatchImpl world he
  · cases he
  obtain ⟨_, _, rfl, _⟩ := (client_mem_dispatchExternal world).mp he
  exact ⟨hi, pkg, hroute⟩

/-- The external packages of a workflow have different ids, and their functions carry the
id of the package that holds them. -/
structure WellFormed (packages : List PluginPackage) : Prop where
  distinct : (packages.filterMap PluginPackage.asExternalPackage).Pairwise
    fun p q => p.id ≠ q.id
  held : ∀ p, .external p ∈ packages → ∀ f ∈ p.functions, f.packageId = p.id

/-- No internal function of a workflow has the key as its id. -/
def NoInternal (packages : List PluginPackage) (key : String) : Prop :=
  ∀ c, .core c ∈ packages → ∀ f ∈ c.functions, f.id ≠ key

/-- A call by the key of an external function's shim leads to that function exactly when
its package id is separable and no internal function has the key as its id. -/
theorem external_routing_iff (time : Nat) (w : CoreWorkflowCode)
    (hw : WellFormed w.pluginPackages) (p : CorePluginExternalPackage)
    (hp : .external p ∈ w.pluginPackages) (f : CorePluginExternalFunction)
    (hf : f ∈ p.functions)
    (hload : ∃ package, (loadPackage world time p.wasmPath).result = .ok package)
    (argsJson : String) :
    RoutedTo (dispatchImpl world time w.dispatchCtx (opKey f.packageId f.name) argsJson).events
        p.wasmPath f.name ↔
      Separable p.id ∧ NoInternal w.pluginPackages (opKey p.id f.name) := by
  rw [hw.held p hp f hf]
  have hmem : p ∈ w.dispatchCtx.external := by
    rw [CoreWorkflowCode.dispatchCtx_external]
    exact List.mem_filterMap.mpr ⟨_, hp, rfl⟩
  have hfind : w.dispatchCtx.external.find? (fun q => q.id == p.id) = some p := by
    refine find?_of_pairwise_ne ?_ hmem
    rw [CoreWorkflowCode.dispatchCtx_external]
    exact hw.distinct
  constructor
  · intro h
    obtain ⟨hi, pkg, hroute⟩ := route_of_routedTo world h
    obtain ⟨pkgId, hs, _⟩ := externalRoute_eq_some.mp hroute
    rw [(splitOpKey_opKey hs).mpr rfl] at hs
    exact ⟨(splitOpKey_opKey_iff p.id f.name).mp hs, (w.dispatchCtx_lookup _).mp hi⟩
  · intro hcond
    obtain ⟨hsep, hint⟩ := hcond
    have hs := (splitOpKey_opKey_iff p.id f.name).mpr hsep
    exact routedTo_of_route world ((w.dispatchCtx_lookup _).mpr hint)
      (externalRoute_eq_some.mpr ⟨p.id, hs, hfind⟩) hload argsJson

theorem wellFormed_singleton (p : CorePluginExternalPackage)
    (h : ∀ f ∈ p.functions, f.packageId = p.id) (rest : List CorePluginPackage) :
    WellFormed (.external p :: rest.map .core) := by
  have hrest : (rest.map PluginPackage.core).filterMap PluginPackage.asExternalPackage = [] := by
    rw [List.filterMap_map]
    exact List.filterMap_eq_nil_iff.mpr fun _ _ => rfl
  refine ⟨?_, fun q hq f hf => ?_⟩
  · rw [List.filterMap_cons, hrest]
    exact List.pairwise_singleton _ p
  · obtain rfl : q = p := by simpa using hq
    exact h f hf

theorem external_routing_files :
    RoutedTo (dispatchImpl sampleWorld 0
        (CoreWorkflowCode.new "w" "" [.external (samplePackage "files" [("files-read", "read")])]
          1 [] []).dispatchCtx (opKey "files" "read") "\x7b\x7d").events "files.wasm" "read" :=
  (external_routing_iff sampleWorld 0
    (CoreWorkflowCode.new "w" "" [.external (samplePackage "files" [("files-read", "read")])]
      1 [] []) (wellFormed_singleton _ (by decide) [])
    (samplePackage "files" [("files-read", "read")]) (.head _)
    ⟨"files-read", "read", "", "", "files"⟩ (.head _) ⟨_, sample_load 0 "files.wasm"⟩
    "\x7b\x7d").mpr ⟨by decide, fun c hc => by simp [CoreWorkflowCode.new] at hc⟩

/-- A package id with the separator in it, and an internal function named like the key. -/
theorem external_routing_misled :
    (WellFormed [.external (samplePackage "a::b" [("f", "read")])] ∧
      ¬ RoutedTo (dispatchImpl sampleWorld 0
        (CoreWorkflowCode.new "w" "" [.external (samplePackage "a::b" [("f", "read")])]
          1 [] []).dispatchCtx (opKey "a::b" "read") "\x7b\x7d").events "a::b.wasm" "read") ∧
    WellFormed [.external (samplePackage "files" [("f", "read")]),
      .core ⟨"c", "c", [⟨"files::read", "g", fun _ _ => .ok .null, none⟩]⟩] ∧
      ¬ RoutedTo (dispatchImpl sampleWorld 0
        (CoreWorkflowCode.new "w" "" [.external (samplePackage "files" [("f", "read")]),
          .core ⟨"c", "c", [⟨"files::read", "g", fun _ _ => .ok .null, none⟩]⟩]
          1 [] []).dispatchCtx (opKey "files" "read") "\x7b\x7d").events "files.wasm" "read" := by
  refine ⟨⟨wellFormed_singleton _ (by decide) [], fun h => ?_⟩,
    wellFormed_singleton _ (by decide) [⟨"c", "c", _⟩], fun h => ?_⟩
  · obtain ⟨_, pkg, hroute⟩ := route_of_routedTo sampleWorld h
    have hnone : externalRoute (CoreWorkflowCode.new "w" ""
        [.external (samplePackage "a::b" [("f", "read")])] 1 [] []).dispatchCtx
        (opKey "a::b" "read") = none := by decide
    rw [hnone] at hroute
    cases hroute
  · obtain ⟨hi, _⟩ := route_of_routedTo sampleWorld h
    exact (CoreWorkflowCode.dispatchCtx_lookup _ _).mp hi _ (.tail _ (.head _)) _ (.head _) rfl

end Sapphillon.Routing
