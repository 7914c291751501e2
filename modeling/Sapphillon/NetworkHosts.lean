import Sapphillon.Capabilities
import Sapphillon.Permission
import Mathlib.Data.Finset.Order

/-! Network grants on their two sides: `check_permission` reads a resource as a URL, and the
manifest carries it over as a host pattern. Extism's test of the patterns and `Url::parse` are
parameters. -/
namespace Sapphillon.NetworkHosts
open Capabilities CheckUrl ExtPlugin Permission Proto StdStr

/-- Extism lets a request through when some pattern matches the host of its URL. -/
def permits (glob : String → String → Bool) (hosts : List String) (u : Url) : Bool :=
  match u.hostStr with
  | some host => hosts.any fun pattern => glob pattern host
  | none => false

def metacharacters : List Char := ['?', '*', '[']

/-- What a pattern begins with, up to its first metacharacter, is matched literally. -/
def MatchesLiterally (glob : String → String → Bool) : Prop :=
  ∀ pattern text, glob pattern text = true → ∀ p, p <+: pattern.toList →
    (∀ c ∈ p, c ∉ metacharacters) → p <+: text.toList

/-- A scheme without a meaning of its own, of any length. -/
def plainScheme (n : Nat) : String := String.ofList (List.replicate (n + 1) 'x')

/-- What is used of the syntax of URLs: a text that parses begins with a scheme and a colon;
only a host in brackets has a colon; and a host may stand behind any scheme. -/
structure UrlSyntax (parse : String → Option Url) : Prop where
  scheme : ∀ text u, parse text = some u → ∃ p rest, text.toList = p ++ ':' :: rest ∧ p ≠ [] ∧
    ∀ c ∈ p, c ∉ metacharacters
  host : ∀ text u host, parse text = some u → u.hostStr = some host → ':' ∈ host.toList →
    host.toList.head? = some '['
  compose : ∀ text u host, parse text = some u → u.hostStr = some host → ∀ n,
    ∃ v, parse (plainScheme n ++ "://" ++ host) = some v ∧ v.scheme = plainScheme n ∧
      v.hostStr = some host

/-- The text of a grant, as a pattern, matches the host of a URL. -/
def MatchesHost (glob : String → String → Bool) (p : Permission) (u : Url) : Prop :=
  p.kind = .networkAccess ∧ ∃ host, u.hostStr = some host ∧ glob p.resource host = true

variable {parse : String → Option Url} {glob : String → String → Bool} {g : Permissions}

variable (parse glob g) in
/-- The check of a URL and the sandbox's answer to a request of it are the same. -/
def Agrees (text : String) (u : Url) : Prop :=
  checkPermission parse g ⟨[Permission.new .networkAccess text]⟩ = .ok ↔
    permits glob (permissionsToWasi g.permissions).2 u = true

theorem check_url_iff (hg : ¬ HasAllowAll g.permissions) (text : String) :
    checkPermission parse g ⟨[Permission.new .networkAccess text]⟩ = .ok ↔
      ∃ p ∈ g.permissions, p.kind = .networkAccess ∧ urlCovers parse p.resource text = true := by
  rw [checkPermission_singleton_iff]
  refine exists_congr fun p => and_congr_right fun hp => ?_
  exact covers_url parse (fun hk => hg ⟨p, hp, hk⟩) (kind_new _ _)

theorem permits_iff (hg : ¬ HasAllowAll g.permissions) (u : Url) :
    permits glob (permissionsToWasi g.permissions).2 u = true ↔
      ∃ p ∈ g.permissions, MatchesHost glob p u := by
  have hhosts (pattern : String) : pattern ∈ (permissionsToWasi g.permissions).2 ↔
      ∃ p ∈ g.permissions, p.kind = .networkAccess ∧ pattern = p.resource := by
    rw [mem_hosts]
    refine exists_congr fun p => and_congr_right fun hp => ?_
    rw [grantHost_eq_some, or_iff_right fun h => hg ⟨p, hp, h.1⟩]
  unfold permits MatchesHost
  cases u.hostStr with
  | none => simp
  | some host =>
    simp only [List.any_eq_true, hhosts, Option.some.injEq, exists_eq_left']
    constructor
    · intro h
      obtain ⟨_, ⟨p, hp, hk, rfl⟩, hmatch⟩ := h
      exact ⟨p, hp, hk, hmatch⟩
    · intro h
      obtain ⟨p, hp, hk, hmatch⟩ := h
      exact ⟨_, ⟨p, hp, hk, rfl⟩, hmatch⟩

/-- A text that parses as a URL has a colon before its first metacharacter, which no host
begins with. -/
theorem not_matchesHost_of_url (hglob : MatchesLiterally glob) (hparse : UrlSyntax parse)
    {p : Permission} {text : String} {u v : Url} (hp : parse p.resource = some v)
    (hu : parse text = some u) : ¬ MatchesHost glob p u := by
  intro h
  obtain ⟨_, host, hhost, hmatch⟩ := h
  obtain ⟨scheme, rest, htext, hne, hplain⟩ := hparse.scheme _ _ hp
  have hprefix : scheme ++ [':'] <+: host.toList := by
    apply hglob _ _ hmatch
    · exact ⟨rest, by rw [htext, List.append_assoc]; rfl⟩
    · exact List.forall_mem_append.mpr ⟨hplain, by simp [metacharacters]⟩
  obtain ⟨t, ht⟩ := hprefix
  have hbracket := hparse.host _ _ _ hu hhost (by rw [← ht]; simp)
  cases scheme with
  | nil => exact hne rfl
  | cons c scheme =>
    obtain rfl : c = '[' := by simpa [← ht] using hbracket
    exact hplain _ List.mem_cons_self (by decide)

/-- A grant that covers a URL is one itself. -/
theorem parses_of_urlCovers {a b : String} (h : urlCovers parse a b = true) :
    ∃ ua ub, parse a = some ua ∧ parse b = some ub ∧ ua.scheme = ub.scheme := by
  obtain ⟨ua, ub, ha, hb, hs, _⟩ := (urlCovers_iff parse a b).mp h
  exact ⟨ua, ub, ha, hb, hs⟩

variable (parse) in
/-- Some scheme occurs in no entry of a list. -/
theorem exists_fresh_scheme (perms : List Permission) :
    ∃ n, ∀ p ∈ perms, ∀ u, parse p.resource = some u → u.scheme ≠ plainScheme n := by
  obtain ⟨n, hn⟩ := ((perms.filterMap fun p => parse p.resource).map
    fun u => u.scheme.toList.length).toFinset.exists_le
  refine ⟨n, fun p hp u hu hs => ?_⟩
  have hle : u.scheme.toList.length ≤ n :=
    hn _ (List.mem_toFinset.mpr (List.mem_map.mpr ⟨u, List.mem_filterMap.mpr ⟨p, hp, hu⟩, rfl⟩))
  simp only [hs, plainScheme, String.toList_ofList, List.length_replicate] at hle
  omega

/-- For one URL: the two sides agree when a grant covers the URL exactly in case another
grant, which is no URL, matches its host. -/
theorem agrees_iff (hglob : MatchesLiterally glob) (hparse : UrlSyntax parse)
    (hg : ¬ HasAllowAll g.permissions) {text : String} {u : Url} (hu : parse text = some u) :
    Agrees parse glob g text u ↔
      ((∃ p ∈ g.permissions, p.kind = .networkAccess ∧ urlCovers parse p.resource text = true) ↔
        ∃ p ∈ g.permissions, parse p.resource = none ∧ MatchesHost glob p u) := by
  rw [Agrees, check_url_iff hg, permits_iff hg]
  refine iff_congr Iff.rfl (exists_congr fun p => and_congr_right fun _ => ?_)
  constructor
  · intro h
    cases hp : parse p.resource with
    | none => exact ⟨rfl, h⟩
    | some v => exact absurd h (not_matchesHost_of_url hglob hparse hp hu)
  · exact fun h => h.2

/-- No network grant of a list is a URL, and none matches a host. -/
def NoEffect (parse : String → Option Url) (glob : String → String → Bool) (g : Permissions) :
    Prop :=
  ∀ p ∈ g.permissions, p.kind = .networkAccess →
    parse p.resource = none ∧ ∀ text u, parse text = some u → ¬ MatchesHost glob p u

/-- Where the sides agree on every URL, no grant is one: a pattern that matches its host
matches it behind every scheme, and the grants cover only finitely many. -/
theorem no_url_of_agrees (hparse : UrlSyntax parse) (hg : ¬ HasAllowAll g.permissions)
    (h : ∀ text u, parse text = some u → Agrees parse glob g text u) {p : Permission}
    (hp : p ∈ g.permissions) (hk : p.kind = .networkAccess) : parse p.resource = none := by
  cases hu : parse p.resource with
  | none => rfl
  | some u =>
    have hself := (check_url_iff hg p.resource).mpr
      ⟨p, hp, hk, urlCovers_refl parse (Option.isSome_iff_exists.mpr ⟨u, hu⟩)⟩
    obtain ⟨q, hq, hqk, host, hhost, hmatch⟩ := (permits_iff hg u).mp ((h _ u hu).mp hself)
    obtain ⟨n, hn⟩ := exists_fresh_scheme parse g.permissions
    obtain ⟨v, hv, hscheme, hvhost⟩ := hparse.compose _ _ _ hu hhost n
    have hpermits := (permits_iff hg v).mpr ⟨q, hq, hqk, host, hvhost, hmatch⟩
    obtain ⟨r, hr, _, hcovers⟩ := (check_url_iff hg _).mp ((h _ v hv).mpr hpermits)
    obtain ⟨ur, v', hur, hv', hs⟩ := parses_of_urlCovers hcovers
    obtain rfl := Option.some.inj (hv.symm.trans hv')
    exact absurd (hs.trans hscheme) (hn r hr ur hur)

theorem agrees_all_iff (hparse : UrlSyntax parse) (hg : ¬ HasAllowAll g.permissions) :
    (∀ text u, parse text = some u → Agrees parse glob g text u) ↔ NoEffect parse glob g := by
  constructor
  · intro h p hp hk
    refine ⟨no_url_of_agrees hparse hg h hp hk, fun text u hu hmatch => ?_⟩
    have hcheck := (h text u hu).mpr ((permits_iff hg u).mpr ⟨p, hp, hmatch⟩)
    obtain ⟨q, hq, hqk, hcovers⟩ := (check_url_iff hg text).mp hcheck
    obtain ⟨v, _, hv, _⟩ := parses_of_urlCovers hcovers
    cases (no_url_of_agrees hparse hg h hq hqk).symm.trans hv
  · intro h text u hu
    rw [Agrees, check_url_iff hg, permits_iff hg]
    refine iff_of_false (fun hc => ?_) (fun hm => ?_)
    · obtain ⟨p, hp, hk, hcovers⟩ := hc
      obtain ⟨v, _, hv, _⟩ := parses_of_urlCovers hcovers
      cases (h p hp hk).1.symm.trans hv
    · obtain ⟨p, hp, hmatch⟩ := hm
      exact (h p hp hmatch.1).2 text u hu hmatch

/-- The two sides agree on one URL when a URL among the grants covers it exactly in case a
grant that is no URL matches its host, and on every URL only for lists whose network grants
have no effect at all. -/
theorem network_agreement_iff (parse : String → Option Url) (glob : String → String → Bool)
    (hglob : MatchesLiterally glob) (hparse : UrlSyntax parse) (g : Permissions)
    (hg : ¬ HasAllowAll g.permissions) :
    (∀ text u, parse text = some u → (Agrees parse glob g text u ↔
      ((∃ p ∈ g.permissions, p.kind = .networkAccess ∧ urlCovers parse p.resource text = true) ↔
        ∃ p ∈ g.permissions, parse p.resource = none ∧ MatchesHost glob p u))) ∧
    ((∀ text u, parse text = some u → Agrees parse glob g text u) ↔ NoEffect parse glob g) :=
  ⟨fun _ _ hu => agrees_iff hglob hparse hg hu, agrees_all_iff hparse hg⟩

/-! ### Texts of the form `scheme://host/path` -/

/-- Parsing, right on URLs with a plain host and no port. -/
def plainUrl (text : String) : Option Url :=
  match splitOnce [':', '/', '/'] text.toList with
  | some (scheme, rest) =>
    if !scheme.isEmpty && scheme.all Char.isLower && !rest.contains ':' then
      some
        { scheme := String.ofList scheme
          hostStr := some (String.ofList (rest.takeWhile (· != '/')))
          portOrKnownDefault := if scheme == "https".toList then some 443 else none
          path := String.ofList (rest.dropWhile (· != '/')) }
    else none
  | none => none

theorem plainUrl_eq_some {text : String} {u : Url} (h : plainUrl text = some u) :
    ∃ scheme rest, text.toList = scheme ++ [':', '/', '/'] ++ rest ∧ scheme ≠ [] ∧
      (∀ c ∈ scheme, c.isLower = true) ∧ ':' ∉ rest ∧
      u.hostStr = some (String.ofList (rest.takeWhile (· != '/'))) := by
  unfold plainUrl at h
  split at h
  · rename_i scheme rest hs
    split at h
    · rename_i hcond
      obtain ⟨⟨hne, hlower⟩, hcolon⟩ : (scheme ≠ [] ∧ ∀ c ∈ scheme, c.isLower = true) ∧
          ':' ∉ rest := by simpa using hcond
      obtain rfl := Option.some.inj h
      exact ⟨scheme, rest, splitOnce_eq_append hs, hne, hlower, hcolon, rfl⟩
    · cases h
  · cases h

theorem plainUrl_of_parts {text : String} {scheme rest : List Char}
    (htext : text.toList = scheme ++ [':', '/', '/'] ++ rest) (hne : scheme ≠ [])
    (hlower : ∀ c ∈ scheme, c.isLower = true) (hcolon : ':' ∉ rest) :
    ∃ u, plainUrl text = some u ∧ u.scheme = String.ofList scheme ∧
      u.hostStr = some (String.ofList (rest.takeWhile (· != '/'))) := by
  have hscheme : ':' ∉ scheme := fun hmem => absurd (hlower _ hmem) (by decide)
  have hs : splitOnce [':', '/', '/'] text.toList = some (scheme, rest) := by
    rw [htext]
    exact splitOnce_of_not_mem hscheme rest
  have hcond : (!scheme.isEmpty && scheme.all Char.isLower && !rest.contains ':') = true := by
    simpa using And.intro (And.intro hne hlower) hcolon
  unfold plainUrl
  rw [hs]
  exact ⟨_, if_pos hcond, rfl, rfl⟩

theorem plainUrl_urlSyntax : UrlSyntax plainUrl := by
  constructor
  case scheme =>
    intro text u h
    obtain ⟨scheme, rest, htext, hne, hlower, _, _⟩ := plainUrl_eq_some h
    refine ⟨scheme, '/' :: '/' :: rest, by simp [htext], hne, fun c hc hmeta => ?_⟩
    have hc := hlower c hc
    simp only [metacharacters, List.mem_cons, List.not_mem_nil, or_false] at hmeta
    obtain rfl | rfl | rfl := hmeta <;> exact absurd hc (by decide)
  case host =>
    intro text u host h hhost hmem
    obtain ⟨scheme, rest, _, _, _, hcolon, hu⟩ := plainUrl_eq_some h
    obtain rfl := Option.some.inj (hhost.symm.trans hu)
    rw [String.toList_ofList] at hmem
    exact absurd ((List.takeWhile_sublist _).mem hmem) hcolon
  case compose =>
    intro text u host h hhost n
    obtain ⟨_, rest, _, _, _, hcolon, hu⟩ := plainUrl_eq_some h
    obtain rfl := Option.some.inj (hhost.symm.trans hu)
    have htext : (plainScheme n ++ "://" ++ String.ofList (rest.takeWhile (· != '/'))).toList =
        List.replicate (n + 1) 'x' ++ [':', '/', '/'] ++ rest.takeWhile (· != '/') := by
      simp [plainScheme]
    obtain ⟨v, hv, hscheme, hvhost⟩ := plainUrl_of_parts htext (by simp)
      (fun c hc => by rw [List.eq_of_mem_replicate hc]; decide)
      (fun hmem => hcolon ((List.takeWhile_sublist _).mem hmem))
    refine ⟨v, hv, hscheme, ?_⟩
    rw [hvhost, List.takeWhile_idem]

theorem beq_matchesLiterally : MatchesLiterally fun pattern text => pattern == text := by
  intro pattern text h p hp _
  rwa [beq_iff_eq.mp h] at hp

theorem network_agreement_two_grants :
    ∃ u, plainUrl "https://a.io/v1/x" = some u ∧
      Agrees plainUrl (fun pattern text => pattern == text)
        ⟨[Permission.new .networkAccess "https://a.io/v1", Permission.new .networkAccess "a.io"]⟩
        "https://a.io/v1/x" u := by
  refine ⟨_, rfl, ((network_agreement_iff plainUrl (fun pattern text => pattern == text)
    beq_matchesLiterally plainUrl_urlSyntax
    ⟨[Permission.new .networkAccess "https://a.io/v1", Permission.new .networkAccess "a.io"]⟩
    (by decide)).1 "https://a.io/v1/x" _ rfl).mpr (iff_of_true ?_ ?_)⟩
  · exact ⟨_, .head _, by decide, by decide⟩
  · exact ⟨_, .tail _ (.head _), by decide, by decide, "a.io", by decide, by decide⟩

/-- A granted URL that the sandbox does not open, and an opened host that is not granted. -/
theorem network_sides_differ :
    (∃ u, plainUrl "https://example.com/api/x" = some u ∧
      ¬ Agrees plainUrl (fun pattern text => pattern == text)
        ⟨[Permission.new .networkAccess "https://example.com/api"]⟩
        "https://example.com/api/x" u) ∧
    ∃ u, plainUrl "https://example.com/" = some u ∧
      ¬ Agrees plainUrl (fun pattern text => pattern == text)
        ⟨[Permission.new .networkAccess "example.com"]⟩ "https://example.com/" u := by
  refine ⟨⟨_, rfl, ?_⟩, _, rfl, ?_⟩
  · unfold Agrees
    decide
  · unfold Agrees
    decide

end Sapphillon.NetworkHosts
