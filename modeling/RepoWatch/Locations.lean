import Mathlib.Data.List.MinMax
import RepoWatch.Lib.Regex
import RepoWatch.Serving
/-!
# Locations — which location of the server serves a path

A route has an index location, which a regular expression of its repository type picks out, and a package location, which
takes every other path below the route's prefix.  nginx takes a location of exactly the path, then the first regular
expression that matches in the order of the file, then the longest prefix.
-/
namespace RepoWatch

open Lib

/-! ## Index locations -/

section Patterns
open Regex

/-- `[^/]+`. -/
def segment : Regex := plus (char (· != '/'))

/-- The row of `patterns` for a repository type. -/
def indexPattern : RepoType → Regex
  | .pacman => seqs [segment, lit ['.'], words ["db".toList, "files".toList],
      opt (seqs [lit ".tar.".toList, words ["gz".toList, "xz".toList, "zst".toList]]), opt (lit ".sig".toList), eos]
  | .apt => seqs [lit "dists/".toList, notAhead (seqs [star dot, lit ['.'],
      words ["deb".toList, "udeb".toList, "ddeb".toList], eos])]
  | .apk => seqs [lit "APKINDEX.tar.gz".toList, eos]
  | .dnf => lit "repodata/".toList
  | .aptRpm => lit "base/".toList
  | .xbps => seqs [segment, lit "-repodata".toList, eos]
  | .nix => seqs [alt (lit "nix-cache-info".toList) (seqs [segment, lit ".narinfo".toList]), eos]
  | .gentoo => seqs [lit "Packages".toList, opt (lit ".gz".toList), eos]
  | .slackware => seqs [opt (seqs [star dot, lit ['/']]),
      words ["PACKAGES.TXT".toList, "CHECKSUMS.md5".toList, "FILELIST.TXT".toList, "ChangeLog.txt".toList,
        "MANIFEST".toList, "GPG-KEY".toList],
      opt (seqs [lit ['.'], words ["gz".toList, "bz2".toList]]), opt (lit ".asc".toList), eos]

end Patterns

/-- The index location of a route, as far as its key depends on it. -/
structure IndexLocation where
  loc : Str
  pattern : Regex
  host : Str
  rewrite : Option Str
  cacheKey : Option Str

/-- `render`: the location of a route for its index files. -/
def indexLocation (config : Config) (keyPrefix : Str) (loc : Str) (route : Route) (kind : RepoType) : IndexLocation where
  loc := loc
  pattern := indexPattern kind
  host := route.host
  rewrite := if loc ≠ route.remote then some route.remote else none
  cacheKey :=
    if kind = .nix then (contentLocation config keyPrefix loc route kind).cacheKey
    else if kind = .pacman then some (keyPrefix ++ "arch-index-v2:$scheme$proxy_host$request_uri".toList)
    else none

def indexLocations (config : Config) (routes : Routes) : List IndexLocation :=
  routes.locations (indexLocation config routes.keyPrefix)

/-- `location ~ ^<local><pattern>`. -/
def IndexLocation.matchesPath (l : IndexLocation) (uri : Str) : Bool :=
  startsWith uri l.loc && l.pattern.matchesStart (uri.drop l.loc.length)

/-- An index location rewrites as the package location of its route does. -/
def IndexLocation.rewritten (l : IndexLocation) (uri : Str) : Str :=
  ContentLocation.rewritten ⟨l.loc, l.host, l.rewrite, l.cacheKey⟩ uri

/-! ## The selection -/

/-- The paths of `location = …` in `render_purge` and `render_probe_conf`. -/
def adminPaths (config : Config) : List Str :=
  (if config.nginx.enablePurge && config.nginx.enableCacheProbe then ["/purge-raw".toList] else []) ++
    (if config.nginx.enableCacheProbe then ["/cache-probe".toList, "/cache-scan".toList] else [])

inductive Location where
  | admin (path : Str)
  | index (l : IndexLocation)
  | purge (l : PurgeLocation)
  | content (l : ContentLocation)
  | root

/-- `location <local>` and `location /`: the longest prefix. -/
def prefixLocation (config : Config) (routes : Routes) (uri : Str) : Location :=
  match ((contentLocations config routes).filter fun l => startsWith uri l.loc).argmax fun l => l.loc.length with
  | some l => .content l
  | none => .root

def selectLocation (config : Config) (routes : Routes) (uri : Str) : Location :=
  if uri ∈ adminPaths config then .admin uri
  else match (indexLocations config routes).find? (·.matchesPath uri) with
    | some l => .index l
    | none => match (purgeLocations config routes).find? fun l => (l.captures uri).isSome with
      | some l => .purge l
      | none => prefixLocation config routes uri

/-- The key under which the server caches what it serves for a path; `none` where it serves nothing from the cache. -/
def servedKey (config : Config) (routes : Routes) (req : HttpRequest) (uri : Str) : Option Str :=
  match selectLocation config routes uri with
  | .index l => Conf.evalValue (requestVariables l.host req (l.rewritten uri) fun _ => [])
      (l.cacheKey.getD (serverCacheKey routes.keyPrefix))
  | .content l => Conf.evalValue (requestVariables l.host req (l.rewritten uri) fun _ => [])
      (l.cacheKey.getD (serverCacheKey routes.keyPrefix))
  | _ => none

/-- The path is served by a package location. -/
def ServedAsPackage (config : Config) (routes : Routes) (uri : Str) : Prop :=
  ∃ l, selectLocation config routes uri = .content l

/-! ## The locations of a path below a route -/

section Below
variable {config : Config} {routes : Routes} {loc uri : Str} {route : Route} {kind : RepoType}

/-- **The package location** that is selected is the one that `contentKey` finds. -/
theorem servedKey_of_content (h : routes.Accepted config) (hserved : ServedAsPackage config routes uri)
    (req : HttpRequest) : servedKey config routes req uri = contentKey config routes req uri := by
  obtain ⟨l, hl⟩ := hserved
  have hsel : prefixLocation config routes uri = .content l := by
    unfold selectLocation at hl
    split at hl
    · cases hl
    split at hl
    · cases hl
    split at hl
    · cases hl
    · exact hl
  have hmem : l ∈ (contentLocations config routes).filter fun l => startsWith uri l.loc := by
    unfold prefixLocation at hsel
    split at hsel
    · rename_i l' harg
      cases hsel
      exact List.argmax_mem harg
    · cases hsel
  obtain ⟨hcontent, hpre⟩ := List.mem_filter.1 hmem
  obtain ⟨loc', hloc', hx⟩ := List.mem_filterMap.1 hcontent
  obtain ⟨route', hroute', hx⟩ := Option.bind_eq_some_iff.1 hx
  obtain ⟨kind', hkind', rfl⟩ := Option.map_eq_some_iff.1 hx
  have hfind : (routes.locations (contentLocation config routes.keyPrefix)).find? (fun l => startsWith uri l.loc) =
      some (contentLocation config routes.keyPrefix loc' route' kind') :=
    Routes.find?_locations hroute' hkind' hpre fun loc hloc _ _ hp =>
      h.route_unique hloc (mem_sortedStr.1 hloc') (startsWith_iff.1 hp) (startsWith_iff.1 hpre)
  unfold servedKey contentKey contentLocations
  rw [hl, hfind, Option.bind_some]

/-- An index location that is selected for a path below a route is that route's. -/
theorem index_of_selectLocation (h : routes.Accepted config) (hroute : routes.routes.lookup loc = some route)
    (hkind : routes.kinds.lookup loc = some kind) (hpre : loc <+: uri) {l : IndexLocation}
    (hl : selectLocation config routes uri = .index l) : l = indexLocation config routes.keyPrefix loc route kind := by
  have hfind : (indexLocations config routes).find? (·.matchesPath uri) = some l := by
    unfold selectLocation at hl
    split at hl
    · cases hl
    split at hl
    · rename_i l' hf
      cases hl
      exact hf
    split at hl
    · cases hl
    · unfold prefixLocation at hl
      split at hl <;> cases hl
  obtain ⟨loc', hloc', hx⟩ := List.mem_filterMap.1 (List.mem_of_find?_eq_some hfind)
  obtain ⟨route', hroute', hx⟩ := Option.bind_eq_some_iff.1 hx
  obtain ⟨kind', hkind', rfl⟩ := Option.map_eq_some_iff.1 hx
  have hmatch := List.find?_some hfind
  unfold IndexLocation.matchesPath at hmatch
  rw [Bool.and_eq_true, startsWith_iff] at hmatch
  obtain rfl : loc' = loc := h.route_unique (mem_sortedStr.1 hloc')
    (List.mem_map_of_mem (Dict.lookup_eq_some_iff.1 hroute)) hmatch.1 hpre
  rw [hroute, Option.some.injEq] at hroute'
  rw [hkind, Option.some.injEq] at hkind'
  rw [hroute', hkind']

/-- **An index key** has the raw target of the request, except for nix. -/
theorem servedKey_of_index (h : routes.Accepted config) (hdollar : '$' ∉ routes.keyPrefix)
    (hroute : routes.routes.lookup loc = some route) (hkind : routes.kinds.lookup loc = some kind) (hnix : kind ≠ .nix)
    (hpre : loc <+: uri) {l : IndexLocation} (hl : selectLocation config routes uri = .index l) (req : HttpRequest) :
    ∃ before, servedKey config routes req uri = some (before ++ req.requestUri) := by
  have hindex := index_of_selectLocation h hroute hkind hpre hl
  unfold servedKey
  rw [hl, hindex]
  unfold indexLocation serverCacheKey
  dsimp only
  rw [if_neg hnix]
  by_cases hp : kind = .pacman
  · have hplain : '$' ∉ routes.keyPrefix ++ "arch-index-v2:".toList := by
      rw [List.mem_append, not_or]
      exact ⟨hdollar, by decide⟩
    refine ⟨routes.keyPrefix ++ ("arch-index-v2:".toList ++ ("http".toList ++ route.host)), ?_⟩
    rw [if_pos hp, Option.getD_some, show "arch-index-v2:$scheme$proxy_host$request_uri".toList =
      "arch-index-v2:".toList ++ "$scheme$proxy_host$request_uri".toList from rfl, ← List.append_assoc,
      Conf.evalValue_append _ hplain, eval_requestUri]
    simp
  · refine ⟨routes.keyPrefix ++ ("http".toList ++ route.host), ?_⟩
    rw [if_neg hp, Option.getD_none, Conf.evalValue_append _ hdollar, eval_requestUri]
    simp

end Below

end RepoWatch
