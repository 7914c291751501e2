import Sapphillon.Permission

/-! Filesystem coverage against the places paths denote. The test forgets how far a
relative text climbs above its start, so it is sound for rooted grants only. -/
namespace Sapphillon.PathSoundness
open LexicalPath PathText CheckPath CheckUrl Coverage Permission Proto

/-- The place a path text denotes in the working directory `w`. -/
def locate (w path : String) : List (List Char) := location w.toList path.toList

/-- The `..` of a text that find nothing to remove. -/
def climbs (s : String) : Nat := escapes (segments s.toList)

/-- When the test may be trusted for a grant `a` and a required path `b`, told from the
two texts alone. -/
def Anchored (a b : String) : Prop :=
  absolute a = true ∨
  (absolute a = false ∧ absolute b = true ∧ names a ≠ []) ∨
  (absolute a = false ∧ absolute b = false ∧
    (climbs a = climbs b ∨ (names a = [] ∧ climbs b ≤ climbs a) ∨ ¬ names a <+: names b))

instance (a b : String) : Decidable (Anchored a b) := by
  unfold Anchored
  infer_instance

/-- The two kinds of filesystem access. -/
inductive Access where
  | read
  | write
deriving DecidableEq, Repr

def Access.kind : Access → PermissionType
  | .read => .filesystemRead
  | .write => .filesystemWrite

theorem locate_absolute (w : String) {p : String} (h : absolute p = true) : locate w p = names p :=
  location_absolute w.toList h

theorem locate_relative (w : String) {p : String} (h : absolute p = false) :
    locate w p = walk (names w) (segments p.toList) :=
  location_relative w.toList h

/-- Every list of valid names is the place of a rooted directory text. -/
theorem exists_cwd {base : List (List Char)} (h : ∀ n ∈ base, ValidName n) :
    ∃ w : String, absolute w = true ∧ names w = base := by
  refine ⟨String.ofList (render base), ?_, ?_⟩
  · simp [absolute, isAbsolute_render]
  · simp [names, residue_render h]

theorem covers_relative_absolute {a b : String} (ha : absolute a = false)
    (hb : absolute b = true) : pathCovers a b = true ↔ names a = [] := by
  rw [pathCovers_iff]
  constructor
  · intro hcov
    obtain ⟨_, h | h⟩ := hcov
    · rw [ha, hb] at h
      cases h
    · exact h.2
  · intro h
    exact ⟨h ▸ List.nil_prefix, Or.inr ⟨ha, h⟩⟩

theorem covers_relative_relative {a b : String} (ha : absolute a = false)
    (hb : absolute b = false) : pathCovers a b = true ↔ names a <+: names b := by
  simp [pathCovers_iff, ha, hb]

theorem not_covers_absolute_relative {a b : String} (ha : absolute a = true)
    (hb : absolute b = false) : ¬ pathCovers a b = true := by
  simp [pathCovers_iff, ha, hb]

/-- A relative grant and a relative requirement, under every working directory. -/
theorem relative_below_iff {a b : String} (ha : absolute a = false) (hb : absolute b = false) :
    (∀ w, absolute w = true → locate w a <+: locate w b) ↔
      (climbs a = climbs b ∧ names a <+: names b) ∨ (names a = [] ∧ climbs b ≤ climbs a) := by
  refine Iff.trans ?_ (forall_walk_prefix_iff validNames_nontrivial (segments a.toList)
    (segments b.toList))
  constructor
  · intro h base hbase
    obtain ⟨w, hw, rfl⟩ := exists_cwd hbase
    rw [← locate_relative w ha, ← locate_relative w hb]
    exact h w hw
  · intro h w _
    rw [locate_relative w ha, locate_relative w hb]
    exact h _ fun n hn => valid_of_mem_residue hn

/-- The test is right about a pair of texts in every working directory exactly when the
pair is anchored. -/
theorem pathCovers_sound_iff (a b : String) :
    (∀ w, absolute w = true → pathCovers a b = true → locate w a <+: locate w b) ↔
      Anchored a b := by
  cases ha : absolute a with
  | true =>
    refine iff_of_true (fun w _ hc => ?_) (Or.inl ha)
    cases hb : absolute b with
    | true =>
      rw [locate_absolute w ha, locate_absolute w hb]
      exact ((pathCovers_iff a b).mp hc).1
    | false => exact absurd hc (not_covers_absolute_relative ha hb)
  | false =>
    cases hb : absolute b with
    | true =>
      have hanch : Anchored a b ↔ names a ≠ [] := by simp [Anchored, ha, hb]
      rw [hanch]
      constructor
      · intro h hnil
        obtain ⟨base, hbase, hno⟩ :=
          exists_walk_not_prefix validNames_nontrivial (segments a.toList) (names b)
        obtain ⟨w, hw, rfl⟩ := exists_cwd hbase
        have hbelow := h w hw ((covers_relative_absolute ha hb).mpr hnil)
        rw [locate_relative w ha, locate_absolute w hb] at hbelow
        exact hno hbelow
      · intro hne w _ hc
        exact absurd ((covers_relative_absolute ha hb).mp hc) hne
    | false =>
      have hanch : Anchored a b ↔ climbs a = climbs b ∨
          (names a = [] ∧ climbs b ≤ climbs a) ∨ ¬ names a <+: names b := by
        simp [Anchored, ha, hb]
      rw [hanch]
      by_cases hpre : names a <+: names b
      · have hc : pathCovers a b = true := (covers_relative_relative ha hb).mpr hpre
        simp only [hc, forall_const, relative_below_iff ha hb, hpre, and_true, not_true_eq_false,
          or_false]
      · refine iff_of_true (fun w _ hc => ?_) (Or.inr (Or.inr hpre))
        exact absurd ((covers_relative_relative ha hb).mp hc) hpre

/-- A relative text and the same text one level up leave the same names. -/
theorem segments_up (a : String) : segments ("../" ++ a).toList = .up :: segments a.toList := by
  rw [String.toList_append]
  exact segments_join ['.', '.'] a.toList

/-- A grant is safe against every required path exactly when it is rooted. -/
theorem anchored_forall_iff (a : String) : (∀ b, Anchored a b) ↔ absolute a = true := by
  refine ⟨fun h => ?_, fun ha b => Or.inl ha⟩
  by_contra hrel
  have ha : absolute a = false := Bool.eq_false_iff.mpr hrel
  have hroot : absolute "/" = true := by decide
  have hup : absolute ("../" ++ a) = false := by
    rw [absolute, String.toList_append]
    rfl
  have hne : names a ≠ [] := by
    have h0 := h "/"
    simp only [Anchored, ha, hroot] at h0
    simpa using h0
  have hnames : names ("../" ++ a) = names a := by
    rw [names, segments_up]
    rfl
  have hclimbs : climbs ("../" ++ a) = climbs a + 1 := by
    rw [climbs, segments_up]
    rfl
  have h1 := h ("../" ++ a)
  simp [Anchored, ha, hup, hnames, hclimbs, hne] at h1

variable (parse : String → Option Url)

/-- One filesystem grant against one filesystem requirement is the path test. -/
theorem checkPermission_path (k : Access) (a b : String) :
    checkPermission parse ⟨[Permission.new k.kind a]⟩ ⟨[Permission.new k.kind b]⟩ = .ok ↔
      pathCovers a b = true := by
  have hk : (Permission.new k.kind a).kind ≠ .allowAll := by cases k <;> simp [Access.kind]
  have hreq : (Permission.new k.kind b).kind = .filesystemRead ∨
      (Permission.new k.kind b).kind = .filesystemWrite := by cases k <;> simp [Access.kind]
  rw [checkPermission_singleton_iff]
  simp only [List.mem_singleton, exists_eq_left, covers_path parse hk hreq, kind_new, true_and]
  rfl

theorem checkPermission_path_list {g : Permissions} (h : ¬ HasAllowAll g.permissions)
    (k : Access) (b : String) :
    checkPermission parse g ⟨[Permission.new k.kind b]⟩ = .ok ↔
      ∃ p ∈ g.permissions, p.kind = k.kind ∧ pathCovers p.resource b = true := by
  have hreq : (Permission.new k.kind b).kind = .filesystemRead ∨
      (Permission.new k.kind b).kind = .filesystemWrite := by cases k <;> simp [Access.kind]
  rw [checkPermission_singleton_iff]
  refine exists_congr fun p => and_congr_right fun hp => ?_
  rw [covers_path parse (fun he => h ⟨p, hp, he⟩) hreq, kind_new]
  rfl

/-- Filesystem coverage, of a pair of texts and of a grant against a requirement, stays
inside the granted subtree in every working directory exactly for anchored pairs; a grant
is safe against every requirement exactly when it is rooted. -/
theorem fsCoverage_sound_iff (k : Access) (a b : String) :
    ((∀ w, absolute w = true → pathsCoverByAncestor [a] [b] = true →
        locate w a <+: locate w b) ↔ Anchored a b) ∧
    ((∀ w, absolute w = true →
        checkPermission parse ⟨[Permission.new k.kind a]⟩ ⟨[Permission.new k.kind b]⟩ = .ok →
        locate w a <+: locate w b) ↔ Anchored a b) ∧
    ((∀ w b, absolute w = true → pathsCoverByAncestor [a] [b] = true →
        locate w a <+: locate w b) ↔ absolute a = true) ∧
    ∀ (g : Permissions) (w : String), ¬ HasAllowAll g.permissions → absolute w = true →
      (∀ p ∈ g.permissions, p.kind = k.kind → Anchored p.resource b) →
      checkPermission parse g ⟨[Permission.new k.kind b]⟩ = .ok →
      ∃ p ∈ g.permissions, p.kind = k.kind ∧ locate w p.resource <+: locate w b := by
  have hpair (b : String) :
      (∀ w, absolute w = true → pathsCoverByAncestor [a] [b] = true →
        locate w a <+: locate w b) ↔ Anchored a b := by
    simpa [pathsCoverByAncestor_singleton] using pathCovers_sound_iff a b
  refine ⟨hpair b, ?_, ?_, fun g w hg hw hall hok => ?_⟩
  · simpa only [checkPermission_path] using pathCovers_sound_iff a b
  · rw [← anchored_forall_iff]
    exact ⟨fun h b => (hpair b).mp fun w hw hc => h w b hw hc,
      fun h w b hw hc => (hpair b).mpr (h b) w hw hc⟩
  · obtain ⟨p, hp, hk, hc⟩ := (checkPermission_path_list parse hg k b).mp hok
    exact ⟨p, hp, hk, (pathCovers_sound_iff p.resource b).mpr (hall p hp hk) w hw hc⟩

theorem fsCoverage_sound_rooted :
    pathsCoverByAncestor ["/foo"] ["/foo/bar/../baz"] = true ∧
      locate "/home" "/foo" <+: locate "/home" "/foo/bar/../baz" :=
  ⟨by decide, (fsCoverage_sound_iff (fun _ => none) .read "/foo" "/foo/bar/../baz").1.mpr
    (by decide) "/home" (by decide) (by decide)⟩

/-- The grant `x` covers `../x`, which is its sibling directory's entry. -/
theorem fsCoverage_escape :
    absolute "/home" = true ∧ pathsCoverByAncestor ["x"] ["../x"] = true ∧
      checkPermission (fun _ => none) ⟨[Permission.new .filesystemRead "x"]⟩
        ⟨[Permission.new .filesystemRead "../x"]⟩ = .ok ∧
      ¬ locate "/home" "x" <+: locate "/home" "../x" := by
  decide

end Sapphillon.PathSoundness
