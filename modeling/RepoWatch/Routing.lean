import RepoWatch.Lib.Loop
import RepoWatch.Config
/-!
# Routing — local paths, nginx routes and cache keys

`computeRoutes` gives every repository its local prefix and upstream, and refuses a configuration in which two of them
disagree or overlap.  `AcceptedRoutes` is what its success establishes: every repository owns exactly one route, and no
route is a prefix of another, so the route of a path is found by its prefix alone (`route_unique`).
-/
namespace RepoWatch

open Lib

/-- How an f-string writes an optional field. -/
def formatOption (s : Option Str) : Str := s.getD "None".toList

/-- `routing.apt_prefix`. -/
def aptPrefix (repo : RepoConfig) : Str :=
  match repo.custom with
  | some path => path
  | none =>
    let hostname := (urlsplit repo.upstream).hostname
    let path := rstripSlash (urlparsePath repo.upstream)
    if hostname = "security.ubuntu.com".toList ∧ path = "/ubuntu".toList then "/ubuntu-security".toList
    else match (stripSlash path).splitOn '/' with
      | [owner, archive, last] =>
        if hostname = "ppa.launchpadcontent.net".toList ∧ last = "ubuntu".toList then
          "/ppa-".toList ++ owner ++ "-".toList ++ archive
        else path
      | _ => path

/-- `routing.apt_rpm_prefix`. -/
def aptRpmPrefix (repo : RepoConfig) : Str := repo.custom.getD ("/apt-rpm/".toList ++ quote repo.id)

/-- `routing.repo_prefix`. -/
def repoPrefix (repo : RepoConfig) : Str :=
  match repo.type, repo.custom with
  | .apt, _ => aptPrefix repo ++ "/pool/".toList ++ formatOption repo.component
  | .aptRpm, _ => aptRpmPrefix repo ++ "/RPMS.".toList ++ formatOption repo.component
  | _, some path => path
  | .pacman, none => "/arch/".toList ++ formatOption repo.repoName ++ "/os/".toList ++ repo.arch
  | .dnf, none => "/rpm/".toList ++ quote repo.id
  | .gentoo, none => "/gentoo/".toList ++ quote repo.id
  | .slackware, none => "/slackware/".toList ++ quote repo.id
  | .xbps, none => "/xbps/".toList ++ quote repo.id
  | .nix, none => "/nix/".toList ++ repo.id
  | .apk, none => rstripSlash (urlparsePath repo.upstream) ++ "/".toList ++ repo.arch

/-- `routing.package_prefix`. -/
def packagePrefix (repo : RepoConfig) : Str :=
  match repo.type with
  | .aptRpm => aptRpmPrefix repo
  | .apt => aptPrefix repo
  | _ => repoPrefix repo

/-- `routing.package_path`. -/
def packagePath (repo : RepoConfig) (filename : Str) : Str := packagePrefix repo ++ "/".toList ++ filename

/-- `routing.warm_url`. -/
def warmUrl (config : Config) (repo : RepoConfig) (filename : Str) : Str :=
  config.cacheBaseUrl ++ packagePath repo filename

/-- `routing.purge_url`. -/
def purgeUrl (config : Config) (repo : RepoConfig) (filename : Str) : Str :=
  config.cacheBaseUrl ++ "/purge".toList ++ packagePath repo filename

/-! ## Routes -/

structure Route where
  scheme : Str
  host : Str
  remote : Str
  ttl : Int
  deriving DecidableEq, Repr

/-- `route[:3]`. -/
def Route.upstream (r : Route) : Str × Str × Str := (r.scheme, r.host, r.remote)

/-- `/[A-Za-z0-9_./+~-]*` without dot segments. -/
def isUri (value : Str) : Bool := value.head? == some '/' && value.all isUriChar && !hasDotSegment value

/-- `routing._uri`. -/
def uri (value : Str) : Except Error Str :=
  if isUri value then .ok value else configError "nginx: upstream/cache path contains unsupported characters"

/-- The upstream of a repository: plain HTTP(S), with a valid port. -/
def plainUpstream (repo : RepoConfig) : Except Error SplitResult :=
  let upstream := urlsplit repo.upstream
  if !urlsplitOk repo.upstream then .error (.configError (repo.id ++ ": invalid upstream URL".toList))
  else if (upstream.scheme ≠ "http".toList ∧ upstream.scheme ≠ "https".toList) ∨ upstream.hostname = [] ∨
      upstream.hasUserinfo ∨ upstream.query ≠ [] ∨ upstream.fragment ≠ [] ∨ !isPlainNetloc upstream.netloc then
    .error (.configError (repo.id ++ ": nginx requires a plain HTTP(S) upstream".toList))
  else if !upstream.portOk then .error (.configError (repo.id ++ ": invalid upstream port".toList))
  else .ok upstream

/-- The local prefix of a repository, and its remote path with the suffix that the apk parser appends as well. -/
def localRemote (repo : RepoConfig) (remote : Str) : Except Error (Str × Str) :=
  match repo.type with
  | .aptRpm => do return (← uri (rstripSlash (aptRpmPrefix repo) ++ "/".toList), remote)
  | .apt => do return (← uri (rstripSlash (aptPrefix repo) ++ "/".toList), remote)
  | .apk => do
    let loc ← uri (rstripSlash (repoPrefix repo) ++ "/".toList)
    return (loc, ← uri (remote ++ repo.arch ++ "/".toList))
  | _ => do return (← uri (rstripSlash (repoPrefix repo) ++ "/".toList), remote)

/-- The local prefix of a repository and its route, before it meets the others. -/
def repoRoute (config : Config) (repo : RepoConfig) : Except Error (Str × Route) := do
  let upstream ← plainUpstream repo
  let remote ← uri (rstripSlash upstream.path ++ "/".toList)
  let (loc, remote) ← localRemote repo remote
  if loc = "/".toList then .error (.configError (repo.id ++ ": root cache prefix is reserved".toList))
  else
    let ttl := min config.nginx.indexTtl (config.effectiveCheckInterval repo)
    if ttl < 1 then configError "nginx: index TTL/check interval must be positive"
    else return (loc, ⟨upstream.scheme, upstream.netloc, remote, ttl⟩)

/-- The dictionaries `routes` and `kinds`. -/
structure RouteMap where
  routes : Dict Str Route
  kinds : Dict Str RepoType

/-- One round of the loop over the repositories. -/
def RouteMap.add (config : Config) (m : RouteMap) (repo : RepoConfig) : Except Error RouteMap := do
  let (loc, route) ← repoRoute config repo
  if (m.kinds.lookup loc).any (· ≠ repo.type) then
    .error (.configError ("nginx: conflicting repository types for ".toList ++ loc))
  else
    let kinds := m.kinds.set loc repo.type
    match m.routes.lookup loc with
    | none => return ⟨m.routes.set loc route, kinds⟩
    | some previous =>
      if previous.upstream ≠ route.upstream then
        .error (.configError ("nginx: conflicting upstreams for ".toList ++ loc))
      else return ⟨m.routes.set loc { route with ttl := min route.ttl previous.ttl }, kinds⟩

/-- `any(b.startswith(a) for i, a in enumerate(prefixes) for b in prefixes[i + 1:])`. -/
def overlapping : List Str → Bool
  | [] => false
  | a :: rest => rest.any (startsWith · a) || overlapping rest

structure Routes extends RouteMap where
  keyPrefix : Str

/-- `routing.compute_routes`. -/
def computeRoutes (config : Config) : Except Error Routes := do
  let m ← config.repos.foldlM (RouteMap.add config) ⟨Table.empty, Table.empty⟩
  if overlapping (sortedStr m.routes.keys) then configError "nginx: overlapping repository prefixes"
  else
    let version := config.nginx.cacheKeyVersion
    return ⟨m, if version = [] then [] else version ++ ":".toList⟩

/-! ## What acceptance establishes -/

/-- The prefix under which the routes file a repository. -/
def repoLocal (repo : RepoConfig) : Str := rstripSlash (packagePrefix repo) ++ "/".toList

theorem uri_eq_ok {value v : Str} (h : uri value = .ok v) : v = value ∧ isUri value = true := by
  unfold uri at h
  split at h
  · rename_i hv
    cases h
    exact ⟨rfl, hv⟩
  · cases h

theorem localRemote_ok {repo : RepoConfig} {remote loc remote' : Str} (h : localRemote repo remote = .ok (loc, remote')) :
    loc = repoLocal repo ∧ isUri loc = true ∧
      remote' = (if repo.type = .apk then remote ++ repo.arch ++ "/".toList else remote) ∧
      (repo.type = .apk → isUri remote' = true) := by
  unfold localRemote at h
  unfold repoLocal packagePrefix
  split at h <;> rename_i htype
  all_goals
    obtain ⟨l, hl, h⟩ := bind_eq_ok.1 h
    obtain ⟨rfl, hu⟩ := uri_eq_ok hl
  case h_3 =>
    obtain ⟨r, hr, h⟩ := bind_eq_ok.1 h
    obtain ⟨rfl, hru⟩ := uri_eq_ok hr
    cases h
    exact ⟨by rw [htype], hu, by rw [if_pos htype], fun _ => hru⟩
  case h_4 =>
    cases h
    exact ⟨by split <;> simp_all, hu, by rw [if_neg htype], fun ha => (htype ha).elim⟩
  all_goals
    cases h
    exact ⟨by rw [htype], hu, by simp [htype], fun ha => by simp_all⟩

theorem repoRoute_ok {config : Config} {repo : RepoConfig} {loc : Str} {route : Route}
    (h : repoRoute config repo = .ok (loc, route)) :
    loc = repoLocal repo ∧ isUri loc = true ∧ loc ≠ "/".toList ∧ isUri route.remote = true ∧
      "/".toList <:+ route.remote ∧ isPlainNetloc route.host = true := by
  unfold repoRoute at h
  obtain ⟨up, hup, h⟩ := bind_eq_ok.1 h
  obtain ⟨remote, hremote, h⟩ := bind_eq_ok.1 h
  obtain ⟨rfl, hbase⟩ := uri_eq_ok hremote
  obtain ⟨⟨l, r⟩, hlr, h⟩ := bind_eq_ok.1 h
  obtain ⟨hl, hlu, hr, hru⟩ := localRemote_ok hlr
  have hnet : isPlainNetloc up.netloc = true := by
    unfold plainUpstream at hup
    dsimp only at hup
    split at hup
    · cases hup
    split at hup
    · cases hup
    rename_i hplain
    split at hup
    · cases hup
    cases hup
    simp only [not_or] at hplain
    simpa using hplain.2.2.2.2.2
  dsimp only at h
  split at h
  · cases h
  rename_i hroot
  split at h
  · cases h
  cases h
  refine ⟨hl, hlu, hroot, ?_, ?_, hnet⟩
  · by_cases ha : repo.type = .apk
    · exact hru ha
    · rw [hr, if_neg ha]; exact hbase
  · rw [hr]
    split
    · exact List.suffix_append ..
    · exact List.suffix_append ..

theorem keyPrefix_of_ok {config : Config} {routes : Routes} (h : computeRoutes config = .ok routes) :
    ∀ c ∈ routes.keyPrefix, c.isAlphanum = true ∨ c = '_' ∨ c = '-' ∨ c = ':' := by
  unfold computeRoutes at h
  obtain ⟨m, -, h⟩ := bind_eq_ok.1 h
  split at h
  · cases h
  cases h
  have hver := config.versionOk
  unfold NginxConfig.versionOk at hver
  rw [Bool.and_eq_true, List.all_eq_true] at hver
  intro c hc
  dsimp only at hc
  split at hc
  · cases hc
  rcases List.mem_append.1 hc with hc | hc
  · have := hver.1 c hc
    simp only [Bool.or_eq_true, beq_iff_eq] at this
    tauto
  · exact Or.inr (Or.inr (Or.inr (by simpa using hc)))

/-- What the loop has established of the repositories it has visited. -/
structure RouteMap.Serves (config : Config) (repos : List RepoConfig) (m : RouteMap) : Prop where
  owned : ∀ repo ∈ repos, ∃ r, repoRoute config repo = .ok (repoLocal repo, r) ∧
    (m.routes.lookup (repoLocal repo)).map Route.upstream = some r.upstream ∧
    m.kinds.lookup (repoLocal repo) = some repo.type
  owner : ∀ loc route, m.routes.lookup loc = some route → ∃ repo ∈ repos, repoLocal repo = loc
  kinds : ∀ loc, (m.kinds.lookup loc).isSome = (m.routes.lookup loc).isSome

/-- What one round may do: file the repository under its local prefix, next to owners of its type and upstream only. -/
theorem RouteMap.add_ok {config : Config} {m m' : RouteMap} {repo : RepoConfig} (h : m.add config repo = .ok m') :
    ∃ r ttl, repoRoute config repo = .ok (repoLocal repo, r) ∧
      (∀ kind, m.kinds.lookup (repoLocal repo) = some kind → kind = repo.type) ∧
      (∀ previous, m.routes.lookup (repoLocal repo) = some previous → previous.upstream = r.upstream) ∧
      m' = ⟨m.routes.set (repoLocal repo) { r with ttl := ttl }, m.kinds.set (repoLocal repo) repo.type⟩ := by
  unfold RouteMap.add at h
  obtain ⟨⟨loc, r⟩, hr, h⟩ := bind_eq_ok.1 h
  obtain rfl := (repoRoute_ok hr).1
  dsimp only at h
  split at h
  · cases h
  rename_i hkind
  have hkind' : ∀ kind, m.kinds.lookup (repoLocal repo) = some kind → kind = repo.type := fun kind hk => by
    simpa [hk] using hkind
  split at h
  · rename_i hnone
    cases h
    exact ⟨r, r.ttl, hr, hkind', fun _ hp => by simp [hnone] at hp, rfl⟩
  · rename_i previous hprev
    split at h
    · cases h
    rename_i hup
    cases h
    refine ⟨r, _, hr, hkind', fun p hp => ?_, rfl⟩
    rw [hprev] at hp
    cases hp
    simpa using hup

theorem RouteMap.add_serves {config : Config} {pre : List RepoConfig} {repo : RepoConfig} {m m' : RouteMap}
    (hm : m.Serves config pre) (h : m.add config repo = .ok m') : m'.Serves config (pre ++ [repo]) := by
  obtain ⟨r, ttl, hr, hkind, hup, rfl⟩ := add_ok h
  constructor
  · intro x hx
    rcases List.mem_append.1 hx with hx | hx
    · obtain ⟨rx, hrx, hroute, hk⟩ := hm.owned x hx
      refine ⟨rx, hrx, ?_, ?_⟩
      · by_cases hl : repoLocal x = repoLocal repo
        · rw [Dict.lookup_set, if_pos hl]
          rw [hl] at hroute
          obtain ⟨p, hp, hpu⟩ := Option.map_eq_some_iff.1 hroute
          rw [← hpu, hup p hp]
          rfl
        · rw [Dict.lookup_set, if_neg hl]; exact hroute
      · by_cases hl : repoLocal x = repoLocal repo
        · rw [Dict.lookup_set, if_pos hl, ← hkind x.type (hl ▸ hk)]
        · rw [Dict.lookup_set, if_neg hl]; exact hk
    · rw [List.mem_singleton] at hx
      subst hx
      exact ⟨r, hr, by simp [Route.upstream], by simp⟩
  · intro loc route hl
    rw [Dict.lookup_set] at hl
    by_cases hloc : loc = repoLocal repo
    · exact ⟨repo, by simp, hloc.symm⟩
    · rw [if_neg hloc] at hl
      obtain ⟨x, hx, hxl⟩ := hm.owner loc route hl
      exact ⟨x, by simp [hx], hxl⟩
  · intro loc
    rw [Dict.lookup_set, Dict.lookup_set]
    by_cases hloc : loc = repoLocal repo
    · simp [hloc]
    · rw [if_neg hloc, if_neg hloc]; exact hm.kinds loc

theorem overlapping_eq_false : ∀ l : List Str, overlapping l = false ↔ l.Pairwise (fun a b => ¬ a <+: b)
  | [] => by simp [overlapping]
  | a :: rest => by
    unfold overlapping
    rw [Bool.or_eq_false_iff, overlapping_eq_false rest, List.pairwise_cons, List.any_eq_false]
    simp only [startsWith_iff]

theorem eq_of_prefix_of_not_overlapping {l : List Str} (h : overlapping (sortedStr l) = false) {a b : Str} (ha : a ∈ l)
    (hb : b ∈ l) (hab : a <+: b) : a = b := by
  have hp : (sortedStr l).Pairwise (fun x y => x <+: y → x = y) :=
    ((overlapping_eq_false _).1 h).imp fun hn hxy => absurd hxy hn
  have hflip : (sortedStr l).Pairwise (flip fun x y => x <+: y → x = y) :=
    (pairwise_sortedStr l).imp fun hle hyx => le_antisymm (prefix_le hyx) hle
  exact hp.forall_of_forall_of_flip (fun _ _ _ => rfl) hflip (mem_sortedStr.2 ha) (mem_sortedStr.2 hb) hab

/-- What an accepted configuration's routes are. -/
structure Routes.Accepted (config : Config) (routes : Routes) : Prop extends
    RouteMap.Serves config config.repos routes.toRouteMap where
  prefixFree : ∀ a ∈ routes.routes.keys, ∀ b ∈ routes.routes.keys, a <+: b → a = b

theorem computeRoutes_accepted {config : Config} {routes : Routes} (h : computeRoutes config = .ok routes) :
    routes.Accepted config := by
  unfold computeRoutes at h
  obtain ⟨m, hm, h⟩ := bind_eq_ok.1 h
  have hserves : m.Serves config config.repos := foldlM_inv (fun pre m => RouteMap.Serves config pre m)
    ⟨fun _ h => by simp at h, fun _ _ h => by simp [Dict.lookup] at h, fun _ => rfl⟩
    (fun _ _ _ _ => RouteMap.add_serves) hm
  split at h
  · cases h
  rename_i hov
  cases h
  exact ⟨hserves, fun a ha b hb => eq_of_prefix_of_not_overlapping (by simpa using hov) ha hb⟩

namespace Routes.Accepted
variable {config : Config} {routes : Routes}

theorem mem_keys (h : routes.Accepted config) {repo : RepoConfig} (hr : repo ∈ config.repos) :
    repoLocal repo ∈ routes.routes.keys := by
  obtain ⟨r, -, hl, -⟩ := h.owned repo hr
  by_contra hn
  rw [Dict.lookup_eq_none_iff.2 hn] at hl
  cases hl

/-- **The route of a path is unique.** -/
theorem route_unique (h : routes.Accepted config) {a b path : Str} (ha : a ∈ routes.routes.keys)
    (hb : b ∈ routes.routes.keys) (hap : a <+: path) (hbp : b <+: path) : a = b := by
  rcases List.prefix_or_prefix_of_prefix hap hbp with hab | hba
  · exact h.prefixFree a ha b hb hab
  · exact (h.prefixFree b hb a ha hba).symm

/-- Local prefixes are distinct only where the repositories' upstreams and types may differ. -/
theorem type_eq_of_repoLocal_eq (h : routes.Accepted config) {a b : RepoConfig} (ha : a ∈ config.repos)
    (hb : b ∈ config.repos) (hl : repoLocal a = repoLocal b) : a.type = b.type := by
  obtain ⟨_, _, _, hka⟩ := h.owned a ha
  obtain ⟨_, _, _, hkb⟩ := h.owned b hb
  rw [hl, hkb] at hka
  exact (Option.some.inj hka).symm

end Routes.Accepted

theorem repoLocal_isPrefix (repo : RepoConfig) : repoLocal repo <+: packagePrefix repo ++ "/".toList := by
  obtain ⟨t, ht, hs⟩ := rstripSlash_append (packagePrefix repo)
  unfold repoLocal
  conv => rhs; rw [ht]
  rw [List.append_assoc]
  refine (List.prefix_append_right_inj _).2 ?_
  cases t with
  | nil => exact List.prefix_refl _
  | cons c t =>
    obtain rfl := hs c List.mem_cons_self
    exact ⟨t ++ "/".toList, rfl⟩

/-- A package path is the local prefix, slashes that were stripped from it, and the file name. -/
theorem packagePath_split (repo : RepoConfig) : ∃ slashes : Str, (∀ c ∈ slashes, c = '/') ∧
    ∀ filename, packagePath repo filename = repoLocal repo ++ (slashes ++ filename) := by
  obtain ⟨t, ht, hs⟩ := rstripSlash_append (packagePrefix repo)
  refine ⟨t, hs, fun filename => ?_⟩
  have hcomm : t ++ "/".toList = "/".toList ++ t := by
    have : t = List.replicate t.length '/' := List.eq_replicate_iff.2 ⟨rfl, hs⟩
    rw [this]
    exact List.replicate_succ'.symm.trans List.replicate_succ
  unfold packagePath repoLocal
  conv => lhs; rw [ht, List.append_assoc _ t, hcomm]
  simp

theorem repoLocal_prefix_packagePath (repo : RepoConfig) (filename : Str) :
    repoLocal repo <+: packagePath repo filename :=
  (repoLocal_isPrefix repo).trans (List.prefix_append _ _)

/-! ## Cache keys -/

/-- How Python shows a string in quotes. -/
def reprStr (s : Str) : Str :=
  let quotes : Char := if s.contains '\'' && !s.contains '"' then '"' else '\''
  quotes :: s.flatMap (fun c =>
    if c = quotes ∨ c = '\\' then ['\\', c]
    else if c = '\n' then "\\n".toList
    else if c = '\r' then "\\r".toList
    else if c = '\t' then "\\t".toList
    else if c.toNat < 0x20 ∨ c.toNat = 0x7f then
      ['\\', 'x', quote.hexDigit (c.toNat / 16) |>.toLower, quote.hexDigit (c.toNat % 16) |>.toLower]
    else [c]) ++ [quotes]

/-- `CacheKeyBuilder`: the routes and the default dedup basis of one operation. -/
structure CacheKeyBuilder where
  routes : Routes
  dedup : Bool

def CacheKeyBuilder.new (config : Config) : Except Error CacheKeyBuilder := do
  return ⟨← computeRoutes config, config.nginx.enableDedup⟩

/-- What the key function of one repository has bound. -/
structure BoundKey where
  keyBase : Str
  loc : Str
  remote : Str
  defaultDedup : Bool

/-- The key of a file under the default basis or the one given. -/
def BoundKey.key (k : BoundKey) (filename : Str) (dedup : Option Bool := none) : Str :=
  k.keyBase ++ (if dedup.getD k.defaultDedup then k.remote else k.loc) ++ filename

/-- `CacheKeyBuilder.for_repo`. -/
def CacheKeyBuilder.forRepo (b : CacheKeyBuilder) (repo : RepoConfig) : Except Error BoundKey :=
  let loc := packagePrefix repo ++ "/".toList
  match b.routes.routes.rows.find? (fun r => startsWith loc r.1) with
  | some (route, r) =>
    .ok ⟨b.routes.keyPrefix ++ "http".toList ++ r.host, loc, r.remote ++ loc.drop route.length, b.dedup⟩
  | none => .error (.valueError (repo.id ++ ": ".toList ++ reprStr loc ++ " does not match any current nginx route".toList))

/-- The key of a path under the route that owns it: what the key functions agree on. -/
def CacheKeyBuilder.pathKey (b : CacheKeyBuilder) (loc : Str) (r : Route) (dedup : Bool) (path : Str) : Str :=
  b.routes.keyPrefix ++ "http".toList ++ r.host ++ (if dedup then r.remote ++ path.drop loc.length else path)

/-- **The key function of a configured repository** exists, and gives the key of the package's path. -/
theorem CacheKeyBuilder.forRepo_ok {config : Config} {b : CacheKeyBuilder} (h : b.routes.Accepted config)
    {repo : RepoConfig} (hr : repo ∈ config.repos) : ∃ k r, b.forRepo repo = .ok k ∧
      b.routes.routes.lookup (repoLocal repo) = some r ∧ k.defaultDedup = b.dedup ∧
      ∀ filename dedup, k.key filename dedup =
        b.pathKey (repoLocal repo) r (dedup.getD b.dedup) (packagePath repo filename) := by
  obtain ⟨r₀, hr₀, hlook, -⟩ := h.owned repo hr
  obtain ⟨r, hlook, -⟩ := Option.map_eq_some_iff.1 hlook
  have hmem := Dict.lookup_eq_some_iff.1 hlook
  have hpre := repoLocal_isPrefix repo
  cases hf : b.routes.routes.rows.find? (fun x => startsWith (packagePrefix repo ++ "/".toList) x.1) with
  | none =>
    rw [List.find?_eq_none] at hf
    exact absurd (startsWith_iff.2 hpre) (hf _ hmem)
  | some x =>
    have hx := List.mem_of_find?_eq_some hf
    have hxp := List.find?_some hf
    rw [startsWith_iff] at hxp
    have hloc : x.1 = repoLocal repo :=
      h.route_unique (List.mem_map_of_mem hx) (h.mem_keys hr) hxp hpre
    have hxr : x.2 = r := by
      have := Dict.lookup_eq_some_iff.2 hx
      rw [hloc, hlook] at this
      exact (Option.some.inj this).symm
    refine ⟨_, r, by unfold forRepo; dsimp only; rw [hf], hlook, rfl, fun filename dedup => ?_⟩
    unfold BoundKey.key pathKey packagePath
    dsimp only
    rw [hloc, hxr, List.drop_append_of_le_length hpre.length_le]
    cases dedup.getD b.dedup <;> simp

/-- Two configured repositories whose packages share a path share its key. -/
theorem CacheKeyBuilder.key_congr {config : Config} {b : CacheKeyBuilder} (h : b.routes.Accepted config)
    {repo repo' : RepoConfig} (hr : repo ∈ config.repos) (hr' : repo' ∈ config.repos) {k k' : BoundKey}
    (hk : b.forRepo repo = .ok k) (hk' : b.forRepo repo' = .ok k') {f f' : Str}
    (hp : packagePath repo f = packagePath repo' f') (dedup : Option Bool) : k.key f dedup = k'.key f' dedup := by
  obtain ⟨k₁, r, h₁, hl, -, hkey⟩ := forRepo_ok h hr
  obtain ⟨k₂, r', h₂, hl', -, hkey'⟩ := forRepo_ok h hr'
  rw [hk] at h₁
  rw [hk'] at h₂
  cases h₁
  cases h₂
  have hloc : repoLocal repo = repoLocal repo' := h.route_unique (h.mem_keys hr) (h.mem_keys hr')
    (repoLocal_prefix_packagePath repo f) (hp ▸ repoLocal_prefix_packagePath repo' f')
  rw [hloc, hl'] at hl
  rw [hkey, hkey', hp, hloc, Option.some.inj hl]

/-! ## The order of the repositories -/

/-- Two configurations that list the same repositories, maybe in another order. -/
structure Config.Reorders (config config' : Config) : Prop where
  checkInterval : config'.checkInterval = config.checkInterval
  nginx : config'.nginx = config.nginx
  repos : config.repos.Perm config'.repos

section Reorders
variable {config config' : Config}

theorem Config.Reorders.repoRoute_eq (h : config.Reorders config') (repo : RepoConfig) :
    repoRoute config' repo = repoRoute config repo := by
  unfold repoRoute Config.effectiveCheckInterval
  rw [h.checkInterval, h.nginx]

/-- A repository whose route meets no other under its local prefix can be added. -/
theorem RouteMap.Serves.add {pre : List RepoConfig} {repo : RepoConfig} {m : RouteMap} {r : Route} (hm : m.Serves config pre)
    (hr : repoRoute config repo = .ok (repoLocal repo, r)) (htype : ∀ x ∈ pre, repoLocal x = repoLocal repo → x.type = repo.type)
    (hup : ∀ x ∈ pre, ∀ rx, repoLocal x = repoLocal repo →
      repoRoute config x = .ok (repoLocal x, rx) → rx.upstream = r.upstream) :
    ∃ m', m.add config repo = .ok m' := by
  have howner : ∀ previous, m.routes.lookup (repoLocal repo) = some previous → previous.upstream = r.upstream ∧
      m.kinds.lookup (repoLocal repo) = some repo.type := by
    intro previous hprevious
    obtain ⟨x, hx, hloc⟩ := hm.owner _ _ hprevious
    obtain ⟨rx, hrx, hroute, hkind⟩ := hm.owned x hx
    rw [hloc, hprevious] at hroute
    rw [hloc, htype x hx hloc] at hkind
    exact ⟨(Option.some.inj hroute).trans (hup x hx rx hloc hrx), hkind⟩
  have hkind : ¬ (m.kinds.lookup (repoLocal repo)).any (· ≠ repo.type) = true := by
    intro hany
    obtain ⟨kind, hkind, hne⟩ := Option.any_eq_true _ _ |>.1 hany
    have hsome := hm.kinds (repoLocal repo)
    rw [hkind] at hsome
    obtain ⟨previous, hprevious⟩ := Option.isSome_iff_exists.1 hsome.symm
    rw [(howner previous hprevious).2] at hkind
    simp [Option.some.inj hkind] at hne
  cases hprevious : m.routes.lookup (repoLocal repo) with
  | none =>
    refine ⟨⟨m.routes.set (repoLocal repo) r, m.kinds.set (repoLocal repo) repo.type⟩, bind_eq_ok.2 ⟨_, hr, ?_⟩⟩
    dsimp only
    rw [if_neg hkind, hprevious]
    rfl
  | some previous =>
    refine ⟨⟨m.routes.set (repoLocal repo) { r with ttl := min r.ttl previous.ttl },
      m.kinds.set (repoLocal repo) repo.type⟩, bind_eq_ok.2 ⟨_, hr, ?_⟩⟩
    dsimp only
    rw [if_neg hkind, hprevious]
    dsimp only
    rw [if_neg fun hne => hne (howner previous hprevious).1]
    rfl

/-- **A configuration is accepted in every order** of its repositories. -/
theorem Config.Reorders.computeRoutes_ok (h : config.Reorders config') {routes : Routes}
    (hok : computeRoutes config = .ok routes) : ∃ routes', computeRoutes config' = .ok routes' := by
  have hacc := computeRoutes_accepted hok
  have hmem : ∀ {repo}, repo ∈ config'.repos → repo ∈ config.repos := fun hr => h.repos.mem_iff.2 hr
  obtain ⟨m, hrun, hm⟩ := foldlM_ok (fun pre m => RouteMap.Serves config' pre m) (f := RouteMap.add config')
    (z := ⟨Table.empty, Table.empty⟩) (l := config'.repos)
    ⟨fun _ h => by simp at h, fun _ _ h => by simp [Dict.lookup] at h, fun _ => rfl⟩ fun pre repo post m hsplit hm => by
      have hin : ∀ x ∈ pre ++ repo :: post, x ∈ config.repos := fun x hx => hmem (by rwa [hsplit])
      have hrepo := hin repo (List.mem_append_right _ List.mem_cons_self)
      obtain ⟨r, hr, hroute, -⟩ := hacc.owned repo hrepo
      obtain ⟨m', hadd⟩ := hm.add (r := r) ((h.repoRoute_eq repo).trans hr)
        (fun x hx hloc => hacc.type_eq_of_repoLocal_eq (hin x (List.mem_append_left _ hx)) hrepo hloc)
        fun x hx rx hloc hrx => by
          obtain ⟨rx', hrx', hroute', -⟩ := hacc.owned x (hin x (List.mem_append_left _ hx))
          rw [h.repoRoute_eq, hrx'] at hrx
          cases hrx
          rw [hloc, hroute] at hroute'
          exact (Option.some.inj hroute').symm
      exact ⟨m', hadd, RouteMap.add_serves hm hadd⟩
  have hkeys : ∀ k ∈ m.routes.keys, k ∈ routes.routes.keys := by
    intro k hk
    obtain ⟨r, hr⟩ := Option.ne_none_iff_exists'.1 fun hn => Dict.lookup_eq_none_iff.1 hn hk
    obtain ⟨x, hx, rfl⟩ := hm.owner k r hr
    exact hacc.mem_keys (hmem hx)
  have hfree : overlapping (sortedStr m.routes.keys) = false := by
    rw [overlapping_eq_false]
    have hnodup : (sortedStr m.routes.keys).Nodup := ((List.perm_insertionSort _ _).nodup_iff).2 m.routes.keysNodup
    refine hnodup.imp_of_mem fun ha hb hne hab => hne (hacc.prefixFree _ (hkeys _ ?_) _ (hkeys _ ?_) hab)
    · exact mem_sortedStr.1 ha
    · exact mem_sortedStr.1 hb
  unfold computeRoutes
  rw [hrun]
  exact ⟨_, if_neg (by rw [hfree]; exact Bool.false_ne_true)⟩

theorem computeRoutes_keyPrefix {routes : Routes} (h : computeRoutes config = .ok routes) :
    routes.keyPrefix = if config.nginx.cacheKeyVersion = [] then [] else config.nginx.cacheKeyVersion ++ ":".toList := by
  unfold computeRoutes at h
  obtain ⟨m, -, h⟩ := bind_eq_ok.1 h
  split at h
  · cases h
  · cases h
    rfl

/-- **The keys do not depend on the order** of the repositories. -/
theorem Config.Reorders.key_eq (h : config.Reorders config') {b b' : CacheKeyBuilder} (hb : CacheKeyBuilder.new config = .ok b)
    (hb' : CacheKeyBuilder.new config' = .ok b') {repo : RepoConfig} (hr : repo ∈ config.repos) {k k' : BoundKey}
    (hk : b.forRepo repo = .ok k) (hk' : b'.forRepo repo = .ok k') (filename : Str) (dedup : Option Bool) :
    k'.key filename dedup = k.key filename dedup := by
  obtain ⟨routes, hroutes, hnew⟩ := bind_eq_ok.1 hb
  cases hnew
  obtain ⟨routes', hroutes', hnew'⟩ := bind_eq_ok.1 hb'
  cases hnew'
  have hacc := computeRoutes_accepted hroutes
  have hacc' := computeRoutes_accepted hroutes'
  have hr' := h.repos.mem_iff.1 hr
  obtain ⟨_, r, hfor, hl, -, hkey⟩ := CacheKeyBuilder.forRepo_ok (b := ⟨routes, config.nginx.enableDedup⟩) hacc hr
  obtain ⟨_, r', hfor', hl', -, hkey'⟩ := CacheKeyBuilder.forRepo_ok (b := ⟨routes', config'.nginx.enableDedup⟩) hacc' hr'
  rw [hk] at hfor
  rw [hk'] at hfor'
  cases hfor
  cases hfor'
  obtain ⟨x, hx, hup, -⟩ := hacc.owned repo hr
  obtain ⟨x', hx', hup', -⟩ := hacc'.owned repo hr'
  rw [h.repoRoute_eq, hx] at hx'
  cases hx'
  rw [hl] at hup
  rw [hl', ← hup] at hup'
  have hupstream : r'.upstream = r.upstream := Option.some.inj hup'
  have hhost : r'.host = r.host := congrArg (fun p => p.2.1) hupstream
  have hremote : r'.remote = r.remote := congrArg (fun p => p.2.2) hupstream
  rw [hkey, hkey']
  unfold CacheKeyBuilder.pathKey
  rw [computeRoutes_keyPrefix hroutes, computeRoutes_keyPrefix hroutes', h.nginx, hhost, hremote]

end Reorders

/-- `routing.compute_cache_key`. -/
def computeCacheKey (config : Config) (repo : RepoConfig) (filename : Str) : Except Error Str := do
  let b ← CacheKeyBuilder.new config
  return (← b.forRepo repo).key filename

end RepoWatch
