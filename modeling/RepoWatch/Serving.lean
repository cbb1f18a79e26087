import RepoWatch.Lib.Conf
import RepoWatch.Lib.DotSegments
import RepoWatch.Lib.Percent
import RepoWatch.Routing
/-!
# Serving — the keys under which nginx stores, finds and purges a package

`contentLocation` and `purgeLocation` are what the configuration generator writes for a route, with their keys as nginx
values.  A `Client` sends what a URL has after the address of the cache: it refuses control characters and a URL that is too
long, cuts off the fragment, drops the dot segments of the path and quotes what is not safe.  nginx reads the raw request
target, decodes its path for `$uri`, and takes captures from the decoded path.  Texts on the wire are bytes.
-/
namespace RepoWatch

open Lib

/-! ## Requests -/

def isControl (c : Char) : Bool := decide (c.toNat < 0x20) || c.toNat == 0x7F

/-- What a client sends as it is in a path and in a query, and the longest URL that it takes. -/
structure Client where
  pathSafe : Char → Bool
  querySafe : Char → Bool
  maxUrl : Nat
  quotesPath : Percent.Quotes pathSafe
  quotesQuery : Percent.Quotes querySafe
  plain : ∀ c, isUriChar c = true → pathSafe c = true
  reserved : pathSafe '#' = false ∧ pathSafe '?' = false ∧ querySafe '#' = false

/-- The path without dot segments; where nothing is left it is the root. -/
def sentPath (path : Str) : Str := if DotSegments.resolve path = [] then ['/'] else DotSegments.resolve path

/-- The request target for what a URL has after the address of the server; `none` where the client refuses it. -/
def Client.target (client : Client) (text : Str) : Option Str :=
  if text.any isControl then none
  else match partition '?' (partition '#' text).1 with
    | (path, none) => some (Percent.quote client.pathSafe (sentPath path))
    | (path, some query) =>
      some (Percent.quote client.pathSafe (sentPath path) ++ '?' :: Percent.quote client.querySafe query)

/-- A request: the raw target, the decoded path and the arguments. -/
structure HttpRequest where
  requestUri : Str
  path : Str
  args : Str
  deriving DecidableEq

/-- The decoded path; a NUL in it is refused. -/
def decodePath (path : Str) : Option Str := (Percent.unquote path).filter fun decoded => '\x00' ∉ decoded

def HttpRequest.parse (target : Str) : Option HttpRequest :=
  (decodePath (partition '?' target).1).map fun path => ⟨target, path, (partition '?' target).2.getD []⟩

/-- The request for a URL below the address of the cache, `cache_base_url`. -/
def Client.request (client : Client) (config : Config) (url : Str) : Option HttpRequest :=
  if client.maxUrl < url.length then none
  else (client.target (utf8 (url.drop config.cacheBaseUrl.length))).bind HttpRequest.parse

/-! ## Locations -/

/-- What `(.*)$` captures of a text: `.` matches no line break, and `$` also stands before a last one. -/
def captureRest (s : Str) : Option Str :=
  match partition '\n' s with
  | (line, none) => some line
  | (line, some []) => some line
  | _ => none

/-- The package location of a route, as far as its key depends on it. -/
structure ContentLocation where
  loc : Str
  host : Str
  rewrite : Option Str
  cacheKey : Option Str

/-- `render`: the location of a route that is not for its index files. -/
def contentLocation (config : Config) (keyPrefix : Str) (loc : Str) (route : Route) (kind : RepoType) :
    ContentLocation where
  loc := loc
  host := route.host
  rewrite := if loc ≠ route.remote then some route.remote else none
  cacheKey :=
    if kind = .nix then
      some (keyPrefix ++ "$scheme$proxy_host".toList ++
        if config.nginx.enableDedup then "$uri$is_args$args".toList else "$request_uri".toList)
    else if config.nginx.enableDedup then some (keyPrefix ++ "$scheme$proxy_host$uri".toList)
    else none

/-- `render`: the key of the server block, for a location that has none of its own. -/
def serverCacheKey (keyPrefix : Str) : Str := keyPrefix ++ "$scheme$proxy_host$request_uri".toList

structure PurgeLocation where
  loc : Str
  cacheKey : Str

/-- `render_purge`: the purge location of a route. -/
def purgeLocation (config : Config) (keyPrefix : Str) (loc : Str) (route : Route) (kind : RepoType) : PurgeLocation where
  loc := loc
  cacheKey := keyPrefix ++ ("${scheme}".toList ++ (route.host ++
    ((if config.nginx.enableDedup then route.remote else loc) ++
      ("$1".toList ++ if kind = .nix then "$is_args$args".toList else []))))

/-- One location for each route, in the order of the routes. -/
def Routes.locations {α : Type} (routes : Routes) (location : Str → Route → RepoType → α) : List α :=
  (sortedStr routes.routes.keys).filterMap fun loc =>
    (routes.routes.lookup loc).bind fun route => (routes.kinds.lookup loc).map fun kind => location loc route kind

def contentLocations (config : Config) (routes : Routes) : List ContentLocation :=
  routes.locations (contentLocation config routes.keyPrefix)

def purgeLocations (config : Config) (routes : Routes) : List PurgeLocation :=
  if config.nginx.enablePurge then routes.locations (purgeLocation config routes.keyPrefix) else []

/-! ## Keys of a request -/

/-- The variables of a request in a location; the server listens on plain HTTP. -/
def requestVariables (host : Str) (req : HttpRequest) (uri : Str) (capture : Nat → Str) : Conf.Variables where
  named name :=
    if name = "scheme".toList then some "http".toList
    else if name = "proxy_host".toList then some host
    else if name = "request_uri".toList then some req.requestUri
    else if name = "uri".toList then some uri
    else if name = "is_args".toList then some (if req.args = [] then [] else ['?'])
    else if name = "args".toList then some req.args
    else none
  capture := capture

/-- `rewrite ^<local>(.*)$ <remote>$1 break`. -/
def ContentLocation.rewritten (l : ContentLocation) (uri : Str) : Str :=
  match l.rewrite with
  | none => uri
  | some remote => match captureRest (uri.drop l.loc.length) with
    | some rest => remote ++ rest
    | none => uri

/-- The `proxy_cache_key` of the package location that owns a path. -/
def contentKey (config : Config) (routes : Routes) (req : HttpRequest) (uri : Str) : Option Str :=
  ((contentLocations config routes).find? fun l => startsWith uri l.loc).bind fun l =>
    Conf.evalValue (requestVariables l.host req (l.rewritten uri) fun _ => [])
      (l.cacheKey.getD (serverCacheKey routes.keyPrefix))

/-- `location ~ ^/purge<local>(.*)$`: what it captures. -/
def PurgeLocation.captures (l : PurgeLocation) (path : Str) : Option Str :=
  let pre := "/purge".toList ++ l.loc
  if startsWith path pre then captureRest (path.drop pre.length) else none

/-- The key that the purge location of a request evicts. -/
def purgeKey (config : Config) (routes : Routes) (req : HttpRequest) : Option Str :=
  ((purgeLocations config routes).find? fun l => (l.captures req.path).isSome).bind fun l =>
    (l.captures req.path).bind fun rest =>
      Conf.evalValue (requestVariables [] req req.path fun n => if n = 1 then rest else []) l.cacheKey

/-! ## Characters of a route -/

/-- A character that every client sends as it is, and that nginx reads as it is. -/
structure PlainChar (c : Char) : Prop where
  ascii : c.toNat < 128
  noControl : isControl c = false
  noSyntax : c ≠ '$' ∧ c ≠ '?' ∧ c ≠ '#' ∧ c ≠ '%' ∧ c ≠ '\n'

theorem isAlphanum_ascii {c : Char} (h : c.isAlphanum = true) : c.toNat < 128 := by
  delta Char.isAlphanum Char.isAlpha Char.isUpper Char.isLower Char.isDigit at h
  simp only [Bool.or_eq_true, Bool.and_eq_true, decide_eq_true_eq, ge_iff_le, UInt32.le_iff_toNat_le] at h
  have : c.toNat = c.val.toNat := rfl
  grind

theorem isAlphanum_of_isDigit {c : Char} (h : c.isDigit = true) : c.isAlphanum = true := by
  delta Char.isAlphanum
  rw [h, Bool.or_true]

theorem plainChar_of_uriChar {c : Char} (h : isUriChar c = true) : PlainChar c := by
  have hascii : c.toNat < 128 := by
    unfold isUriChar at h
    rw [Bool.or_eq_true] at h
    rcases h with h | h
    · exact isAlphanum_ascii h
    · simp only [List.contains_iff_mem, List.mem_cons, List.not_mem_nil, or_false] at h
      rcases h with rfl | rfl | rfl | rfl | rfl | rfl <;> decide
  obtain ⟨h1, h2⟩ := forall_ascii (P := fun c => isUriChar c = true → isControl c = false ∧
    (c ≠ '$' ∧ c ≠ '?' ∧ c ≠ '#' ∧ c ≠ '%' ∧ c ≠ '\n')) (by decide) hascii h
  exact ⟨hascii, h1, h2⟩

theorem mem_of_isPlainNetloc {netloc : Str} (h : isPlainNetloc netloc = true) :
    ∀ c ∈ netloc, c.toNat < 128 ∧ c ≠ '$' ∧ c ≠ '/' := by
  have hchar : ∀ c : Char, c.isAlphanum = true ∨ c = '.' ∨ c = '-' ∨ c = ':' → c.toNat < 128 ∧ c ≠ '$' ∧ c ≠ '/' := by
    rintro c (h | rfl | rfl | rfl)
    · refine ⟨isAlphanum_ascii h, ?_, ?_⟩ <;>
      · rintro rfl
        exact absurd h (by decide)
    all_goals decide
  obtain ⟨-, hsplit⟩ := partition_spec ':' netloc
  unfold isPlainNetloc at h
  dsimp only at h
  rw [Bool.and_eq_true, Bool.and_eq_true, List.all_eq_true] at h
  obtain ⟨⟨-, hhost⟩, hport⟩ := h
  have hhost' : ∀ c ∈ (partition ':' netloc).1, c.toNat < 128 ∧ c ≠ '$' ∧ c ≠ '/' := fun c hc => by
    have := hhost c hc
    simp only [Bool.or_eq_true, beq_iff_eq] at this
    rcases this with (h | h) | h
    · exact hchar c (Or.inl h)
    all_goals exact hchar c (by simp [h])
  intro c hc
  rw [hsplit] at hc
  rcases List.mem_append.1 hc with hc | hc
  · exact hhost' c hc
  cases hp : (partition ':' netloc).2 with
  | none =>
    rw [hp] at hc
    cases hc
  | some ds =>
    rw [hp] at hc hport
    dsimp only at hc hport
    rw [Bool.and_eq_true, List.all_eq_true] at hport
    rcases List.mem_cons.1 hc with rfl | hc
    · exact hchar _ (by simp)
    · exact hchar c (Or.inl (isAlphanum_of_isDigit (hport.2 c hc)))

theorem mem_of_isUri {value : Str} (h : isUri value = true) : ∀ c ∈ value, isUriChar c = true := by
  unfold isUri at h
  rw [Bool.and_eq_true, Bool.and_eq_true, List.all_eq_true] at h
  exact h.1.2

theorem head_of_isUri {value : Str} (h : isUri value = true) : ∃ rest, value = '/' :: rest := by
  cases value with
  | nil => cases h
  | cons c rest =>
    unfold isUri at h
    rw [Bool.and_eq_true, Bool.and_eq_true] at h
    obtain rfl : c = '/' := by simpa using h.1.1
    exact ⟨rest, rfl⟩

theorem dots_of_isUri {value : Str} (h : isUri value = true) : DotSegments.hasDot value = false := by
  unfold isUri at h
  rw [Bool.and_eq_true, Bool.not_eq_true'] at h
  exact h.2

/-- The route of a configured repository. -/
structure OwnRoute (routes : Routes) (repo : RepoConfig) (route : Route) : Prop where
  found : routes.routes.lookup (repoLocal repo) = some route
  kind : routes.kinds.lookup (repoLocal repo) = some repo.type
  loc : isUri (repoLocal repo) = true
  notRoot : repoLocal repo ≠ "/".toList
  remote : isUri route.remote = true
  slash : "/".toList <:+ route.remote
  host : isPlainNetloc route.host = true

theorem Routes.Accepted.ownRoute {config : Config} {routes : Routes} (h : routes.Accepted config) {repo : RepoConfig}
    (hr : repo ∈ config.repos) : ∃ route, OwnRoute routes repo route := by
  obtain ⟨r, hroute, hup, hkind⟩ := h.owned repo hr
  obtain ⟨-, hloc, hroot, hremote, hslash, hhost⟩ := repoRoute_ok hroute
  obtain ⟨route, hl, hr⟩ := Option.map_eq_some_iff.1 hup
  simp only [Route.upstream, Prod.mk.injEq] at hr
  obtain ⟨-, hh, hrm⟩ := hr
  exact ⟨route, hl, hkind, hloc, hroot, hrm ▸ hremote, hrm ▸ hslash, hh ▸ hhost⟩

namespace OwnRoute
variable {routes : Routes} {repo : RepoConfig} {route : Route} (h : OwnRoute routes repo route)
include h

theorem locPlain : ∀ c ∈ repoLocal repo, isUriChar c = true := mem_of_isUri h.loc

theorem remotePlain : ∀ c ∈ route.remote, isUriChar c = true := mem_of_isUri h.remote

theorem hostPlain : ∀ c ∈ route.host, c.toNat < 128 ∧ c ≠ '$' := fun c hc =>
  ⟨(mem_of_isPlainNetloc h.host c hc).1, (mem_of_isPlainNetloc h.host c hc).2.1⟩

theorem slash_not_mem_host : '/' ∉ route.host := fun hm => (mem_of_isPlainNetloc h.host _ hm).2.2 rfl

theorem mem_keys : repoLocal repo ∈ routes.routes.keys := List.mem_map_of_mem (Dict.lookup_eq_some_iff.1 h.found)

/-- The local prefix is an absolute path with a slash behind it. -/
theorem base : ∃ rest, repoLocal repo = '/' :: rest ++ ['/'] := by
  obtain ⟨rest, hrest⟩ := head_of_isUri h.loc
  cases hbase : rstripSlash (packagePrefix repo) with
  | nil => exact absurd (by rw [repoLocal, hbase]; rfl) h.notRoot
  | cons c tail =>
    rw [repoLocal, hbase] at hrest
    obtain rfl := (List.cons_eq_cons.1 hrest).1
    exact ⟨tail, by rw [repoLocal, hbase]; rfl⟩

end OwnRoute

theorem keyPrefix_plain {config : Config} {routes : Routes} (h : computeRoutes config = .ok routes) :
    ∀ c ∈ routes.keyPrefix, c.toNat < 128 ∧ c ≠ '$' := by
  intro c hc
  rcases keyPrefix_of_ok h c hc with h | rfl | rfl | rfl
  · exact ⟨isAlphanum_ascii h, by rintro rfl; exact absurd h (by decide)⟩
  all_goals decide

/-! ## The keys in closed form -/

/-- The location of a route is found by what its predicate says of the route's prefix. -/
theorem Routes.find?_locations {α : Type} {routes : Routes} {location : Str → Route → RepoType → α} {P : α → Bool}
    {loc : Str} {route : Route} {kind : RepoType} (hroute : routes.routes.lookup loc = some route)
    (hkind : routes.kinds.lookup loc = some kind) (hP : P (location loc route kind) = true)
    (huniq : ∀ loc' ∈ routes.routes.keys, ∀ route' kind', P (location loc' route' kind') = true → loc' = loc) :
    (routes.locations location).find? P = some (location loc route kind) := by
  have hkey : loc ∈ routes.routes.keys := by
    by_contra hn
    rw [Dict.lookup_eq_none_iff.2 hn] at hroute
    cases hroute
  have hmem : location loc route kind ∈ routes.locations location := by
    refine List.mem_filterMap.2 ⟨loc, mem_sortedStr.2 hkey, ?_⟩
    rw [hroute, hkind]
    rfl
  cases hf : (routes.locations location).find? P with
  | none => exact absurd hP (List.find?_eq_none.1 hf _ hmem)
  | some x =>
    obtain ⟨loc', hloc', hx⟩ := List.mem_filterMap.1 (List.mem_of_find?_eq_some hf)
    obtain ⟨route', hroute', hx⟩ := Option.bind_eq_some_iff.1 hx
    obtain ⟨kind', hkind', rfl⟩ := Option.map_eq_some_iff.1 hx
    obtain rfl := huniq loc' (mem_sortedStr.1 hloc') route' kind' (List.find?_some hf)
    rw [hroute, Option.some.injEq] at hroute'
    rw [hkind, Option.some.injEq] at hkind'
    rw [hroute', hkind']

/-- `$is_args$args`. -/
def HttpRequest.query (req : HttpRequest) : Str := if req.args = [] then [] else '?' :: req.args

section Templates
variable (host : Str) (req : HttpRequest) (uri : Str) (capture : Nat → Str)

@[simp] theorem named_scheme : (requestVariables host req uri capture).named "scheme".toList = some "http".toList := rfl
@[simp] theorem named_proxyHost : (requestVariables host req uri capture).named "proxy_host".toList = some host := rfl
@[simp] theorem named_requestUri :
    (requestVariables host req uri capture).named "request_uri".toList = some req.requestUri := rfl
@[simp] theorem named_uri : (requestVariables host req uri capture).named "uri".toList = some uri := rfl
@[simp] theorem named_isArgs :
    (requestVariables host req uri capture).named "is_args".toList = some (if req.args = [] then [] else ['?']) := rfl
@[simp] theorem named_args : (requestVariables host req uri capture).named "args".toList = some req.args := rfl

theorem isArgs_args : (if req.args = [] then [] else ['?']) ++ req.args = req.query := by
  unfold HttpRequest.query
  by_cases h : req.args = [] <;> simp [h]

theorem eval_requestUri : Conf.evalValue (requestVariables host req uri capture)
    "$scheme$proxy_host$request_uri".toList = some ("http".toList ++ (host ++ req.requestUri)) := by
  have hparse : Conf.parseValue .text "$scheme$proxy_host$request_uri".toList =
      some [.var "scheme".toList, .var "proxy_host".toList, .var "request_uri".toList] := by decide
  simp only [Conf.evalValue, hparse, Option.bind_some, Conf.evalParts, Conf.Part.eval, named_scheme, named_proxyHost,
    named_requestUri, Option.map_some, List.append_nil]

theorem eval_uri : Conf.evalValue (requestVariables host req uri capture)
    "$scheme$proxy_host$uri".toList = some ("http".toList ++ (host ++ uri)) := by
  have hparse : Conf.parseValue .text "$scheme$proxy_host$uri".toList =
      some [.var "scheme".toList, .var "proxy_host".toList, .var "uri".toList] := by decide
  simp only [Conf.evalValue, hparse, Option.bind_some, Conf.evalParts, Conf.Part.eval, named_scheme, named_proxyHost,
    named_uri, Option.map_some, List.append_nil]

theorem eval_uri_query : Conf.evalValue (requestVariables host req uri capture)
    "$scheme$proxy_host$uri$is_args$args".toList = some ("http".toList ++ (host ++ (uri ++ req.query))) := by
  have hparse : Conf.parseValue .text "$scheme$proxy_host$uri$is_args$args".toList = some [.var "scheme".toList,
      .var "proxy_host".toList, .var "uri".toList, .var "is_args".toList, .var "args".toList] := by decide
  simp only [Conf.evalValue, hparse, Option.bind_some, Conf.evalParts, Conf.Part.eval, named_scheme, named_proxyHost,
    named_uri, named_isArgs, named_args, Option.map_some, List.append_nil, isArgs_args]

/-- The value of a purge key: `middle` is the upstream and the basis. -/
theorem eval_purge {middle : Str} (h : '$' ∉ middle) (kind : RepoType) :
    Conf.evalValue (requestVariables host req uri capture) ("${scheme}".toList ++ (middle ++
      ("$1".toList ++ if kind = .nix then "$is_args$args".toList else []))) =
      some ("http".toList ++ (middle ++ (capture 1 ++ if kind = .nix then req.query else []))) := by
  have hscheme : ∀ rest, Conf.parseValue .text ("${scheme}".toList ++ rest) =
      (Conf.parseValue .text rest).map (.var "scheme".toList :: ·) := fun _ => rfl
  have htail : Conf.evalValue (requestVariables host req uri capture)
      ("$1".toList ++ if kind = .nix then "$is_args$args".toList else []) =
      some (capture 1 ++ if kind = .nix then req.query else []) := by
    by_cases hk : kind = .nix
    · have hparse : Conf.parseValue .text ("$1".toList ++ "$is_args$args".toList) =
          some [.capture 1, .var "is_args".toList, .var "args".toList] := by decide
      simp only [if_pos hk, Conf.evalValue, hparse, Option.bind_some, Conf.evalParts, Conf.Part.eval, named_isArgs,
        named_args, Option.map_some, List.append_nil, isArgs_args]
      rfl
    · have hparse : Conf.parseValue .text ("$1".toList ++ []) = some [.capture 1] := by decide
      simp only [if_neg hk, Conf.evalValue, hparse, Option.bind_some, Conf.evalParts, Conf.Part.eval, Option.map_some]
      rfl
  have hmid := Conf.evalValue_append (requestVariables host req uri capture) h
    ("$1".toList ++ if kind = .nix then "$is_args$args".toList else [])
  rw [htail, Option.map_some] at hmid
  unfold Conf.evalValue at hmid ⊢
  rw [hscheme]
  obtain ⟨ps, hps, hev⟩ := Option.bind_eq_some_iff.1 hmid
  rw [hps, Option.map_some, Option.bind_some, Conf.evalParts, hev]
  rfl

end Templates

/-- What `$uri` is after the location's rewrite. -/
def Route.rewritten (route : Route) (loc uri : Str) : Str :=
  if loc = route.remote then uri
  else match captureRest (uri.drop loc.length) with
    | some rest => route.remote ++ rest
    | none => uri

/-- The part of a package location's key that names the package. -/
def contentBasis (config : Config) (kind : RepoType) (req : HttpRequest) (uri : Str) : Str :=
  if config.nginx.enableDedup then uri ++ (if kind = .nix then req.query else []) else req.requestUri

/-- **The key of a package location.** -/
theorem contentKey_eq {config : Config} {routes : Routes} (h : routes.Accepted config)
    (hdollar : '$' ∉ routes.keyPrefix) {loc uri : Str} {route : Route} {kind : RepoType}
    (hroute : routes.routes.lookup loc = some route) (hkind : routes.kinds.lookup loc = some kind) (hpre : loc <+: uri)
    (req : HttpRequest) : contentKey config routes req uri =
      some (routes.keyPrefix ++ ("http".toList ++ (route.host ++
        contentBasis config kind req (route.rewritten loc uri)))) := by
  have hkey : loc ∈ routes.routes.keys := List.mem_map_of_mem (Dict.lookup_eq_some_iff.1 hroute)
  have hfind : (contentLocations config routes).find? (fun l => startsWith uri l.loc) =
      some (contentLocation config routes.keyPrefix loc route kind) :=
    Routes.find?_locations hroute hkind (startsWith_iff.2 hpre) fun loc' hloc' _ _ hp =>
      h.route_unique hloc' hkey (startsWith_iff.1 hp) hpre
  have hrew : (contentLocation config routes.keyPrefix loc route kind).rewritten uri = route.rewritten loc uri := by
    unfold ContentLocation.rewritten contentLocation Route.rewritten
    by_cases hl : loc = route.remote <;> simp [hl]
  unfold contentKey
  rw [hfind, Option.bind_some, hrew]
  unfold contentLocation serverCacheKey contentBasis
  dsimp only
  by_cases hd : config.nginx.enableDedup = true <;> by_cases hk : kind = .nix
  · rw [if_pos hk, if_pos hd, if_pos hd, if_pos hk, Option.getD_some, List.append_assoc,
      Conf.evalValue_append _ hdollar, show "$scheme$proxy_host".toList ++ "$uri$is_args$args".toList =
        "$scheme$proxy_host$uri$is_args$args".toList from rfl, eval_uri_query]
    rfl
  · rw [if_neg hk, if_pos hd, if_pos hd, if_neg hk, Option.getD_some, Conf.evalValue_append _ hdollar, eval_uri,
      List.append_nil]
    rfl
  · rw [if_pos hk, if_neg hd, if_neg hd, Option.getD_some, List.append_assoc, Conf.evalValue_append _ hdollar,
      show "$scheme$proxy_host".toList ++ "$request_uri".toList = "$scheme$proxy_host$request_uri".toList from rfl,
      eval_requestUri]
    rfl
  · rw [if_neg hk, if_neg hd, if_neg hd, Option.getD_none, Conf.evalValue_append _ hdollar, eval_requestUri]
    rfl

/-- A key of a package location is that of a configured repository. -/
theorem exists_of_contentKey {config : Config} {routes : Routes} (h : routes.Accepted config)
    (hdollar : '$' ∉ routes.keyPrefix) {req : HttpRequest} {uri key : Str} (hkey : contentKey config routes req uri = some key) :
    ∃ repo route, OwnRoute routes repo route ∧ repoLocal repo <+: uri ∧ key = routes.keyPrefix ++ ("http".toList ++
      (route.host ++ contentBasis config repo.type req (route.rewritten (repoLocal repo) uri))) := by
  obtain ⟨l, hfind, -⟩ := Option.bind_eq_some_iff.1 hkey
  obtain ⟨loc, -, hl⟩ := List.mem_filterMap.1 (List.mem_of_find?_eq_some hfind)
  obtain ⟨route', hroute', hl⟩ := Option.bind_eq_some_iff.1 hl
  obtain ⟨kind, -, rfl⟩ := Option.map_eq_some_iff.1 hl
  obtain ⟨repo, hr, rfl⟩ := h.owner loc route' hroute'
  obtain ⟨route, hown⟩ := h.ownRoute hr
  have hstarts := List.find?_some hfind
  have hpre : repoLocal repo <+: uri := startsWith_iff.1 hstarts
  rw [contentKey_eq h hdollar hown.found hown.kind hpre, Option.some.injEq] at hkey
  exact ⟨repo, route, hown, hpre, hkey.symm⟩

/-- The path of a package under the purge location of its route. -/
def purgePath (path : Str) : Str := "/purge".toList ++ path

/-- **The key that is purged**, if the purge location matches. -/
theorem purgeKey_eq {config : Config} {routes : Routes} (h : routes.Accepted config)
    (hdollar : '$' ∉ routes.keyPrefix) (hpurge : config.nginx.enablePurge = true) {repo : RepoConfig} {route : Route}
    (hown : OwnRoute routes repo route) {req : HttpRequest} {rest : Str}
    (hpath : req.path = purgePath (repoLocal repo ++ rest)) : purgeKey config routes req =
      (captureRest rest).map fun c => routes.keyPrefix ++ ("http".toList ++ (route.host ++
        ((if config.nginx.enableDedup then route.remote else repoLocal repo) ++
          (c ++ if repo.type = .nix then req.query else [])))) := by
  have hself : ∀ key : Str, (PurgeLocation.mk (repoLocal repo) key).captures req.path = captureRest rest := fun key => by
    unfold PurgeLocation.captures
    rw [hpath, purgePath, ← List.append_assoc]
    dsimp only
    rw [if_pos (startsWith_iff.2 (List.prefix_append ..)), List.drop_left]
  have hkey : repoLocal repo ∈ routes.routes.keys := hown.mem_keys
  have huniq : ∀ loc' ∈ routes.routes.keys, ∀ (route' : Route) (kind' : RepoType),
      ((purgeLocation config routes.keyPrefix loc' route' kind').captures req.path).isSome = true →
      loc' = repoLocal repo := fun loc' hloc' route' kind' hp => by
    unfold PurgeLocation.captures at hp
    dsimp only at hp
    split at hp
    · rename_i hpre
      rw [hpath, startsWith_iff, purgePath] at hpre
      exact h.route_unique hloc' hkey ((List.prefix_append_right_inj _).1 hpre) (List.prefix_append ..)
    · cases hp
  unfold purgeKey purgeLocations
  rw [if_pos hpurge]
  cases hc : captureRest rest with
  | none =>
    cases hf : (routes.locations (purgeLocation config routes.keyPrefix)).find?
        (fun l => (l.captures req.path).isSome) with
    | none => rfl
    | some x =>
      have hx := List.find?_some hf
      obtain ⟨loc', hloc', hl⟩ := List.mem_filterMap.1 (List.mem_of_find?_eq_some hf)
      obtain ⟨route', -, hl⟩ := Option.bind_eq_some_iff.1 hl
      obtain ⟨kind', -, rfl⟩ := Option.map_eq_some_iff.1 hl
      obtain rfl := huniq loc' (mem_sortedStr.1 hloc') route' kind' hx
      unfold purgeLocation at hx
      rw [hself, hc] at hx
      cases hx
  | some c =>
    have hP : ((purgeLocation config routes.keyPrefix (repoLocal repo) route repo.type).captures req.path).isSome =
        true := by
      unfold purgeLocation
      rw [hself, hc]
      rfl
    have hmiddle : '$' ∉ route.host ++ (if config.nginx.enableDedup then route.remote else repoLocal repo) := by
      rw [List.mem_append, not_or]
      refine ⟨fun hm => (hown.hostPlain _ hm).2 rfl, fun hm => ?_⟩
      split at hm
      · exact absurd (hown.remotePlain _ hm) (by decide)
      · exact absurd (hown.locPlain _ hm) (by decide)
    have hfind : (routes.locations (purgeLocation config routes.keyPrefix)).find?
        (fun l => (l.captures req.path).isSome) =
        some (purgeLocation config routes.keyPrefix (repoLocal repo) route repo.type) :=
      Routes.find?_locations hown.found hown.kind hP huniq
    rw [hfind, Option.bind_some]
    unfold purgeLocation
    rw [hself, hc, Option.bind_some, Option.map_some]
    dsimp only
    rw [Conf.evalValue_append _ hdollar, ← List.append_assoc route.host, eval_purge _ _ _ _ hmiddle, Option.map_some,
      if_pos rfl]
    simp only [List.append_assoc]

/-- A key that is purged is that of a configured repository. -/
theorem exists_of_purgeKey {config : Config} {routes : Routes} (h : routes.Accepted config)
    (hdollar : '$' ∉ routes.keyPrefix) (hpurge : config.nginx.enablePurge = true) {req : HttpRequest} {key : Str}
    (hkey : purgeKey config routes req = some key) : ∃ repo route rest c, OwnRoute routes repo route ∧
      req.path = purgePath (repoLocal repo ++ rest) ∧ captureRest rest = some c ∧ key = routes.keyPrefix ++ ("http".toList ++
        (route.host ++ ((if config.nginx.enableDedup then route.remote else repoLocal repo) ++
          (c ++ if repo.type = .nix then req.query else [])))) := by
  have hkey' := hkey
  unfold purgeKey purgeLocations at hkey'
  rw [if_pos hpurge] at hkey'
  obtain ⟨l, hfind, -⟩ := Option.bind_eq_some_iff.1 hkey'
  obtain ⟨loc, -, hl⟩ := List.mem_filterMap.1 (List.mem_of_find?_eq_some hfind)
  obtain ⟨route', hroute', hl⟩ := Option.bind_eq_some_iff.1 hl
  obtain ⟨kind, -, rfl⟩ := Option.map_eq_some_iff.1 hl
  obtain ⟨repo, hr, rfl⟩ := h.owner loc route' hroute'
  obtain ⟨route, hown⟩ := h.ownRoute hr
  have hcaptures := List.find?_some hfind
  unfold PurgeLocation.captures at hcaptures
  dsimp only at hcaptures
  split at hcaptures
  · rename_i hpre
    obtain ⟨rest, hrest⟩ := startsWith_iff.1 hpre
    have hpath : req.path = purgePath (repoLocal repo ++ rest) := by
      rw [← hrest, purgePath, List.append_assoc]
      rfl
    rw [purgeKey_eq h hdollar hpurge hown hpath] at hkey
    obtain ⟨c, hc, hkey⟩ := Option.map_eq_some_iff.1 hkey
    exact ⟨repo, route, rest, c, hown, hpath, hc, hkey.symm⟩
  · cases hcaptures

end RepoWatch
