import Sapphillon.MergeShape

/-! Revoking one entry of a merged list. Whatever two entries both cover makes one of them cover
the other, so a merged list has one answerable entry for each requirement it meets, and without
this entry exactly the requirements it covers are refused. -/
namespace Sapphillon.Revocation
open CheckPath CheckUrl Coverage Permission Proto MergeShape

variable (parse : String → Option Url)

/-- Two entries that cover one requirement are comparable. -/
theorem covers_comparable {a b x : Permission} (ha : a.kind ≠ .allowAll) (hb : b.kind ≠ .allowAll)
    (hax : Covers parse a x) (hbx : Covers parse b x) : Covers parse a b ∨ Covers parse b a := by
  have hak : a.kind = x.kind := hax.kind_eq parse ha
  have hbk : b.kind = x.kind := hbx.kind_eq parse hb
  have hpath (hx : x.kind = .filesystemRead ∨ x.kind = .filesystemWrite) :
      Covers parse a b ∨ Covers parse b a := by
    rw [covers_path parse ha hx] at hax
    rw [covers_path parse hb hx] at hbx
    rw [covers_path parse ha (by rwa [hbk]), covers_path parse hb (by rwa [hak])]
    exact (pathCovers_comparable hax.2 hbx.2).imp (fun h => ⟨hak.trans hbk.symm, h⟩)
      fun h => ⟨hbk.trans hak.symm, h⟩
  cases hx : x.kind with
  | unspecified =>
    rw [covers_other parse ha (Or.inr hx)] at hax
    rw [covers_other parse hb (Or.inr hx)] at hbx
    exact Or.inl ((covers_other parse ha (Or.inr (hbk.trans hx))).mpr (hax.trans hbx.symm))
  | allowAll => exact absurd (hak.trans hx) ha
  | filesystemRead => exact hpath (Or.inl hx)
  | filesystemWrite => exact hpath (Or.inr hx)
  | networkAccess =>
    rw [covers_url parse ha hx] at hax
    rw [covers_url parse hb hx] at hbx
    rw [covers_url parse ha (hbk.trans hx), covers_url parse hb (hak.trans hx)]
    exact (urlCovers_comparable parse hax.2 hbx.2).imp (fun h => ⟨hax.1, h⟩) fun h => ⟨hbx.1, h⟩

/-- One entry of a merged list answers for a requirement. -/
theorem covers_unique {g : Permissions} {p q x : Permission} (hp : p ∈ (g.merge parse).permissions)
    (hq : q ∈ (g.merge parse).permissions) (hpx : Covers parse p x) (hqx : Covers parse q x) :
    p = q := by
  by_cases h : HasAllowAll g.permissions
  · rw [merge_allowAll parse h] at hp hq
    rw [List.mem_singleton.mp hp, List.mem_singleton.mp hq]
  · have hkind {r : Permission} (hr : r ∈ (g.merge parse).permissions) : r.kind ≠ .allowAll :=
      fun he => (hasAllowAll_merge_iff parse g).not.mpr h ⟨r, hr, he⟩
    by_contra hne
    cases covers_comparable parse (hkind hp) (hkind hq) hpx hqx with
    | inl hpq => exact undominated_of_mem_merge parse h hq p hp hne hpq
    | inr hqp => exact undominated_of_mem_merge parse h hp q hq (Ne.symm hne) hqp

/-- A list without one of its entries. -/
def revoke (g : Permissions) (p : Permission) : Permissions :=
  ⟨g.permissions.filter (· ≠ p)⟩

theorem mem_revocations {g : Permissions} {ps : List Permission} {q : Permission} :
    q ∈ (ps.foldl revoke g).permissions ↔ q ∈ g.permissions ∧ q ∉ ps := by
  induction ps generalizing g with
  | nil => simp
  | cons p ps ih =>
    rw [List.foldl_cons, ih, revoke]
    simp only [List.mem_filter, decide_eq_true_eq, List.mem_cons, not_or, and_assoc]

theorem checkPermission_list_iff (granted required : Permissions) :
    checkPermission parse granted required = .ok ↔
      ∀ x ∈ required.permissions, checkPermission parse granted ⟨[x]⟩ = .ok := by
  simp only [checkPermission_ok_iff, CoversAll, List.forall_mem_singleton]

/-- Whatever entries of it are revoked, in whatever order, a merged list then accepts exactly
the requirements it accepted of which no revoked entry covers any. -/
theorem revocations_exact (g : Permissions) (ps : List Permission)
    (hps : ∀ p ∈ ps, p ∈ (g.merge parse).permissions) (required : Permissions) :
    checkPermission parse (ps.foldl revoke (g.merge parse)) required = .ok ↔
      checkPermission parse (g.merge parse) required = .ok ∧
        ∀ x ∈ required.permissions, ∀ p ∈ ps, checkPermission parse ⟨[p]⟩ ⟨[x]⟩ ≠ .ok := by
  rw [checkPermission_list_iff parse (ps.foldl revoke _),
    checkPermission_list_iff parse (g.merge parse), ← forall₂_and]
  refine forall₂_congr fun x _ => ?_
  simp only [checkPermission_singleton_iff, ne_eq, List.mem_singleton, exists_eq_left,
    mem_revocations]
  constructor
  · intro h
    obtain ⟨q, ⟨hq, hnot⟩, hqx⟩ := h
    exact ⟨⟨q, hq, hqx⟩, fun p hp hpx => hnot (covers_unique parse hq (hps p hp) hqx hpx ▸ hp)⟩
  · intro h
    obtain ⟨⟨q, hq, hqx⟩, hno⟩ := h
    exact ⟨q, ⟨hq, fun hp => hno q hp hqx⟩, hqx⟩

theorem revocations_exact_subtree :
    checkPermission (fun _ => none)
        ([Permission.new .filesystemRead "/srv"].foldl revoke
          (Permissions.merge (fun _ => none) ⟨[Permission.new .filesystemRead "/srv/x",
            Permission.new .filesystemRead "/data", Permission.new .filesystemRead "/srv"]⟩))
        ⟨[Permission.new .filesystemRead "/data/a"]⟩ = .ok ∧
      checkPermission (fun _ => none)
        ([Permission.new .filesystemRead "/srv"].foldl revoke
          (Permissions.merge (fun _ => none) ⟨[Permission.new .filesystemRead "/srv/x",
            Permission.new .filesystemRead "/data", Permission.new .filesystemRead "/srv"]⟩))
        ⟨[Permission.new .filesystemRead "/srv/x"]⟩ ≠ .ok := by
  have hexact := revocations_exact (fun _ => none) ⟨[Permission.new .filesystemRead "/srv/x",
    Permission.new .filesystemRead "/data", Permission.new .filesystemRead "/srv"]⟩
    [Permission.new .filesystemRead "/srv"] (by decide)
  refine ⟨(hexact _).mpr ⟨by decide, by decide⟩, fun hok => ?_⟩
  exact ((hexact _).mp hok).2 _ (.head _) _ (.head _) (by decide)

end Sapphillon.Revocation
