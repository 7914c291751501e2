import Sapphillon.StdStr
import Sapphillon.Coverage

/-! `utils/check_url.rs`: the origin and path-prefix test. `Url::parse` is an arbitrary
partial function to the parts of a URL the test reads. -/
namespace Sapphillon.CheckUrl
open StdStr

/-- The parts of a parsed `Url` the test reads. -/
structure Url where
  scheme : String
  hostStr : Option String
  portOrKnownDefault : Option UInt16
  path : String
deriving DecidableEq, Repr

/-- The last test of `url_covers`: `a`'s path is a prefix of `b`'s up to a segment boundary. -/
def pathPrefix (a b : List Char) : Bool :=
  let aPath := trimEndMatches a '/'
  startsWith b aPath &&
    (aPath.isEmpty || len b == len aPath || (asBytes b)[len aPath]? == some 0x2F)

variable (parse : String → Option Url)

def urlCovers (a b : String) : Bool :=
  match parse a, parse b with
  | some ua, some ub =>
    if ua.scheme != ub.scheme then false
    else if ua.hostStr != ub.hostStr then false
    else if ua.portOrKnownDefault != ub.portOrKnownDefault then false
    else pathPrefix ua.path.toList ub.path.toList
  | _, _ => false

def urlsCoverByAncestor (a b : List String) : Bool :=
  if b.isEmpty then true
  else if a.isEmpty then false
  else b.all fun bEntry => a.any fun aEntry => urlCovers parse aEntry bEntry

theorem urlsCoverByAncestor_iff (a b : List String) :
    urlsCoverByAncestor parse a b = true ↔ ∀ y ∈ b, ∃ x ∈ a, urlCovers parse x y = true :=
  Coverage.all_any_iff (urlCovers parse) a b

theorem urlsCoverByAncestor_singleton (a : List String) (y : String) :
    urlsCoverByAncestor parse a [y] = true ↔ ∃ x ∈ a, urlCovers parse x y = true := by
  simp [urlsCoverByAncestor_iff]

/-! ### The path test -/

/-- `b` continues `a` at a segment boundary; an empty `a` has a boundary everywhere. -/
def Continues (a b : List Char) : Prop :=
  ∃ t, b = a ++ t ∧ (a = [] ∨ t = [] ∨ t.head? = some '/')

/-- The byte lookup of the source decides the boundary between characters. -/
theorem pathPrefix_iff (a b : List Char) :
    pathPrefix a b = true ↔ Continues (trimEndMatches a '/') b := by
  generalize hs : trimEndMatches a '/' = s
  have hdef : pathPrefix a b = true ↔
      s <+: b ∧ (s = [] ∨ len b = len s ∨ (asBytes b)[len s]? = some 0x2F) := by
    simp [pathPrefix, hs, startsWith, or_assoc]
  rw [hdef]
  constructor
  · intro hpre
    obtain ⟨⟨t, rfl⟩, h⟩ := hpre
    rw [len_append_eq, asBytes_at_len] at h
    exact ⟨t, rfl, h⟩
  · intro hcont
    obtain ⟨t, rfl, h⟩ := hcont
    rw [len_append_eq, asBytes_at_len]
    exact ⟨List.prefix_append s t, h⟩

theorem pathPrefix_refl (a : List Char) : pathPrefix a a = true := by
  obtain ⟨n, hn⟩ := trimEndMatches_append a '/'
  refine (pathPrefix_iff a a).mpr ⟨_, hn, ?_⟩
  cases n with
  | zero => exact Or.inr (Or.inl rfl)
  | succ n => exact Or.inr (Or.inr rfl)

/-- The middle path is trimmed when it covers and whole when it is covered; what is cut
between the two uses are slashes, where the first path has its boundary. -/
theorem pathPrefix_trans {a b c : List Char} (hab : pathPrefix a b = true)
    (hbc : pathPrefix b c = true) : pathPrefix a c = true := by
  rw [pathPrefix_iff] at hab hbc ⊢
  obtain ⟨t, hb, ht⟩ := hab
  obtain ⟨u, hc, hu⟩ := hbc
  by_cases ha : trimEndMatches a '/' = []
  · exact ⟨c, by rw [ha]; rfl, Or.inl ha⟩
  have hpre : trimEndMatches a '/' <+: trimEndMatches b '/' :=
    prefix_trimEndMatches ⟨t, hb.symm⟩ (getLast?_trimEndMatches a '/')
  obtain ⟨w, hw⟩ := hpre
  refine ⟨w ++ u, by rw [hc, ← hw, List.append_assoc], Or.inr ?_⟩
  cases w with
  | nil =>
    have hne : trimEndMatches b '/' ≠ [] := by rwa [← hw, List.append_nil]
    exact hu.resolve_left hne
  | cons d w =>
    obtain ⟨n, hn⟩ := trimEndMatches_append b '/'
    have htw : t = d :: w ++ List.replicate n '/' := by
      rw [hn, ← hw, List.append_assoc] at hb
      exact (List.append_cancel_left hb).symm
    refine Or.inr ?_
    have hhead := ht.resolve_left ha
    rw [htw] at hhead
    simpa using hhead

/-- Two paths that lead one path lead each other, in one of the two directions. -/
theorem pathPrefix_comparable {a b c : List Char} (hac : pathPrefix a c = true)
    (hbc : pathPrefix b c = true) : pathPrefix a b = true ∨ pathPrefix b a = true := by
  -- The shorter of the trimmed paths ends where the longer has its next slash.
  have hshorter {a b : List Char} (hac : pathPrefix a c = true) (hbc : pathPrefix b c = true)
      (hpre : trimEndMatches a '/' <+: trimEndMatches b '/') : pathPrefix a b = true := by
    rw [pathPrefix_iff] at hac hbc ⊢
    obtain ⟨t, hc, ht⟩ := hac
    obtain ⟨u, hc', _⟩ := hbc
    obtain ⟨w, hw⟩ := hpre
    obtain ⟨n, hn⟩ := trimEndMatches_append b '/'
    refine ⟨w ++ List.replicate n '/', by rw [← List.append_assoc, hw, ← hn], ?_⟩
    refine ht.imp_right fun ht => ?_
    have htw : t = w ++ u := by
      rw [hc, ← hw, List.append_assoc] at hc'
      exact List.append_cancel_left hc'
    cases w with
    | nil =>
      cases n with
      | zero => exact Or.inl rfl
      | succ n => exact Or.inr rfl
    | cons d w => exact Or.inr (by simpa [htw] using ht)
  have hboth := hac
  rw [pathPrefix_iff] at hboth
  obtain ⟨t, hc, _⟩ := hboth
  have hboth := hbc
  rw [pathPrefix_iff] at hboth
  obtain ⟨u, hc', _⟩ := hboth
  cases List.prefix_or_prefix_of_prefix ⟨t, hc.symm⟩ ⟨u, hc'.symm⟩ with
  | inl hpre => exact Or.inl (hshorter hac hbc hpre)
  | inr hpre => exact Or.inr (hshorter hbc hac hpre)

/-! ### The URL test -/

theorem urlCovers_iff (a b : String) :
    urlCovers parse a b = true ↔ ∃ ua ub, parse a = some ua ∧ parse b = some ub ∧
      ua.scheme = ub.scheme ∧ ua.hostStr = ub.hostStr ∧
      ua.portOrKnownDefault = ub.portOrKnownDefault ∧
      pathPrefix ua.path.toList ub.path.toList = true := by
  unfold urlCovers
  cases parse a with
  | none => simp
  | some ua =>
    cases parse b with
    | none => simp
    | some ub => simp [← and_assoc]

theorem urlCovers_refl {a : String} (h : (parse a).isSome) : urlCovers parse a a = true := by
  obtain ⟨ua, ha⟩ := Option.isSome_iff_exists.mp h
  exact (urlCovers_iff parse a a).mpr
    ⟨ua, ua, ha, ha, rfl, rfl, rfl, pathPrefix_refl _⟩

theorem urlCovers_trans {a b c : String} (hab : urlCovers parse a b = true)
    (hbc : urlCovers parse b c = true) : urlCovers parse a c = true := by
  obtain ⟨ua, ub, ha, hb, hs, hh, hp, hpath⟩ := (urlCovers_iff parse a b).mp hab
  obtain ⟨ub', uc, hb', hc, hs', hh', hp', hpath'⟩ := (urlCovers_iff parse b c).mp hbc
  obtain rfl : ub = ub' := Option.some.inj (hb.symm.trans hb')
  exact (urlCovers_iff parse a c).mpr ⟨ua, uc, ha, hc, hs.trans hs', hh.trans hh',
    hp.trans hp', pathPrefix_trans hpath hpath'⟩

theorem urlCovers_comparable {a b c : String} (hac : urlCovers parse a c = true)
    (hbc : urlCovers parse b c = true) :
    urlCovers parse a b = true ∨ urlCovers parse b a = true := by
  obtain ⟨ua, uc, ha, hc, hs, hh, hp, hpath⟩ := (urlCovers_iff parse a c).mp hac
  obtain ⟨ub, uc', hb, hc', hs', hh', hp', hpath'⟩ := (urlCovers_iff parse b c).mp hbc
  obtain rfl : uc = uc' := Option.some.inj (hc.symm.trans hc')
  refine (pathPrefix_comparable hpath hpath').imp (fun hab => ?_) fun hba => ?_
  · exact (urlCovers_iff parse a b).mpr ⟨ua, ub, ha, hb, hs.trans hs'.symm, hh.trans hh'.symm,
      hp.trans hp'.symm, hab⟩
  · exact (urlCovers_iff parse b a).mpr ⟨ub, ua, hb, ha, hs'.trans hs.symm, hh'.trans hh.symm,
      hp'.trans hp.symm, hba⟩

end Sapphillon.CheckUrl
