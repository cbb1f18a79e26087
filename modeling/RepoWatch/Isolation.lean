import RepoWatch.Locations
/-!
# Isolation — which requests a route answers alone

The local prefixes of accepted routes are prefix free, so a path below one of them can reach no location that another
prefix leads to.  The purge locations lead to paths that begin with `/purge`, and no check keeps a route from beginning so
too: `isolated_iff` says for which paths that matters.
-/
namespace RepoWatch

open Lib

section Isolation
variable {config : Config} {routes : Routes} {loc uri : Str} {route : Route} {kind : RepoType}

/-- A route with its settings. -/
structure Routes.Has (routes : Routes) (loc : Str) (route : Route) (kind : RepoType) : Prop where
  found : routes.routes.lookup loc = some route
  kind : routes.kinds.lookup loc = some kind

theorem Routes.Has.mem_keys (h : routes.Has loc route kind) : loc ∈ routes.routes.keys :=
  List.mem_map_of_mem (Dict.lookup_eq_some_iff.1 h.found)

theorem Routes.Accepted.has (h : routes.Accepted config) (hloc : loc ∈ routes.routes.keys) :
    ∃ route kind, routes.Has loc route kind := by
  obtain ⟨route, hroute⟩ := Option.ne_none_iff_exists'.1 fun hn => Dict.lookup_eq_none_iff.1 hn hloc
  have hkind := h.kinds loc
  rw [hroute, Option.isSome_some] at hkind
  obtain ⟨kind, hkind⟩ := Option.isSome_iff_exists.1 hkind
  exact ⟨route, kind, hroute, hkind⟩

/-- A local prefix begins and ends with a slash, and has one more character at least. -/
theorem Routes.Accepted.slash_mem (h : routes.Accepted config) (hloc : loc ∈ routes.routes.keys) :
    ∃ rest, loc = '/' :: rest ∧ '/' ∈ rest := by
  obtain ⟨route, kind, hhas⟩ := h.has hloc
  obtain ⟨repo, hrepo, rfl⟩ := h.owner loc route hhas.found
  obtain ⟨r, hroute, -⟩ := h.owned repo hrepo
  obtain ⟨-, huri, hne, -⟩ := repoRoute_ok hroute
  unfold repoLocal at huri hne ⊢
  cases hstrip : rstripSlash (packagePrefix repo) with
  | nil =>
    rw [hstrip] at hne
    exact absurd rfl hne
  | cons c rest =>
    refine ⟨rest ++ "/".toList, ?_, by simp⟩
    rw [hstrip, List.cons_append] at huri
    have hc : c = '/' := by
      unfold isUri at huri
      simp at huri
      exact huri.1.1
    rw [hc]
    rfl

/-! ## The exact locations -/

theorem not_admin_of_prefix (h : routes.Accepted config) (hloc : loc ∈ routes.routes.keys) (hpre : loc <+: uri) :
    uri ∉ adminPaths config := by
  obtain ⟨rest, rfl, hslash⟩ := h.slash_mem hloc
  obtain ⟨tail, rfl⟩ := hpre
  intro hmem
  have hpaths : ∀ path ∈ adminPaths config, path ∈ ["/purge-raw".toList, "/cache-probe".toList, "/cache-scan".toList] := by
    intro path hpath
    unfold adminPaths at hpath
    simp only [List.mem_append, List.mem_ite_nil_right, List.mem_cons, List.not_mem_nil, or_false] at hpath
    simp only [List.mem_cons, List.not_mem_nil, or_false]
    tauto
  have hone : ∀ path ∈ ["/purge-raw".toList, "/cache-probe".toList, "/cache-scan".toList], '/' ∉ path.tail := by decide
  refine hone _ (hpaths _ hmem) ?_
  rw [List.cons_append, List.tail_cons]
  exact List.mem_append_left _ hslash

theorem not_admin_of_purge (h : routes.Accepted config) (hloc : loc ∈ routes.routes.keys)
    (hpre : purgePath loc <+: uri) : uri ∉ adminPaths config := by
  obtain ⟨rest, rfl, -⟩ := h.slash_mem hloc
  obtain ⟨tail, rfl⟩ := hpre
  unfold adminPaths purgePath
  simp only [List.mem_append, List.mem_ite_nil_right, List.mem_cons, List.not_mem_nil, or_false]
  rintro (⟨-, h⟩ | ⟨-, h | h⟩) <;> exact absurd h (by simp)

/-! ## The purge locations -/

theorem captures_eq_some {l : PurgeLocation} {c : Str} (h : l.captures uri = some c) :
    ∃ rest, uri = purgePath (l.loc ++ rest) ∧ captureRest rest = some c := by
  unfold PurgeLocation.captures at h
  dsimp only at h
  split at h
  · rename_i hpre
    obtain ⟨rest, rfl⟩ := startsWith_iff.1 hpre
    rw [List.drop_left] at h
    exact ⟨rest, List.append_assoc .., h⟩
  · cases h

theorem captures_purgePath (l : PurgeLocation) (rest : Str) : l.captures (purgePath (l.loc ++ rest)) = captureRest rest := by
  unfold PurgeLocation.captures purgePath
  dsimp only
  rw [← List.append_assoc, if_pos (startsWith_iff.2 (List.prefix_append ..)), List.drop_left]

/-- The purge location that takes a path, if one does. -/
theorem mem_purgeLocations {l : PurgeLocation} (hl : l ∈ purgeLocations config routes) :
    config.nginx.enablePurge = true ∧ ∃ loc route kind, routes.Has loc route kind ∧
      l = purgeLocation config routes.keyPrefix loc route kind := by
  unfold purgeLocations at hl
  split at hl
  · rename_i hpurge
    obtain ⟨loc, -, hx⟩ := List.mem_filterMap.1 hl
    obtain ⟨route, hroute, hx⟩ := Option.bind_eq_some_iff.1 hx
    obtain ⟨kind, hkind, rfl⟩ := Option.map_eq_some_iff.1 hx
    exact ⟨hpurge, loc, route, kind, ⟨hroute, hkind⟩, rfl⟩
  · cases hl

theorem find?_purgeLocations (h : routes.Accepted config) (hpurge : config.nginx.enablePurge = true)
    (hhas : routes.Has loc route kind) {rest : Str} (hcapture : (captureRest rest).isSome = true) :
    (purgeLocations config routes).find? (fun l => (l.captures (purgePath (loc ++ rest))).isSome) =
      some (purgeLocation config routes.keyPrefix loc route kind) := by
  unfold purgeLocations
  rw [if_pos hpurge]
  refine Routes.find?_locations hhas.found hhas.kind ?_ fun loc' hloc' route' kind' hp => ?_
  · exact (congrArg Option.isSome
      (captures_purgePath (purgeLocation config routes.keyPrefix loc route kind) rest)).trans hcapture
  · obtain ⟨c, hc⟩ := Option.isSome_iff_exists.1 hp
    obtain ⟨rest', heq, -⟩ := captures_eq_some hc
    have hsame : loc ++ rest = loc' ++ rest' := List.append_cancel_left heq
    exact h.route_unique hloc' hhas.mem_keys (by rw [hsame]; exact List.prefix_append ..) (List.prefix_append ..)

/-! ## The prefix locations -/

theorem prefixLocation_of_prefix (h : routes.Accepted config) (hhas : routes.Has loc route kind) (hpre : loc <+: uri) :
    prefixLocation config routes uri = .content (contentLocation config routes.keyPrefix loc route kind) := by
  have hall : ∀ l ∈ (contentLocations config routes).filter fun l => startsWith uri l.loc,
      l = contentLocation config routes.keyPrefix loc route kind := by
    intro l hl
    obtain ⟨hl, hp⟩ := List.mem_filter.1 hl
    obtain ⟨loc', hloc', hx⟩ := List.mem_filterMap.1 hl
    obtain ⟨route', hroute', hx⟩ := Option.bind_eq_some_iff.1 hx
    obtain ⟨kind', hkind', rfl⟩ := Option.map_eq_some_iff.1 hx
    obtain rfl := h.route_unique (mem_sortedStr.1 hloc') hhas.mem_keys (startsWith_iff.1 hp) hpre
    rw [hhas.found, Option.some.injEq] at hroute'
    rw [hhas.kind, Option.some.injEq] at hkind'
    rw [hroute', hkind']
  have hmem : contentLocation config routes.keyPrefix loc route kind ∈
      (contentLocations config routes).filter fun l => startsWith uri l.loc := by
    refine List.mem_filter.2 ⟨List.mem_filterMap.2 ⟨loc, mem_sortedStr.2 hhas.mem_keys, ?_⟩, startsWith_iff.2 hpre⟩
    rw [hhas.found, hhas.kind]
    rfl
  unfold prefixLocation
  cases hmax : ((contentLocations config routes).filter fun l => startsWith uri l.loc).argmax fun l => l.loc.length with
  | none =>
    rw [List.argmax_eq_none.1 hmax] at hmem
    cases hmem
  | some l => rw [hall l (List.argmax_mem hmax)]

/-! ## Isolation -/

/-- The route whose locations serve the packages of a repository is the one its key function is bound to. -/
def BoundToRoute (config : Config) (b : CacheKeyBuilder) : Prop :=
  ∀ repo ∈ config.repos, ∃ bound route, b.forRepo repo = .ok bound ∧
    b.routes.Has (repoLocal repo) route repo.type ∧
    (∀ filename, repoLocal repo <+: packagePath repo filename ∧
      ∀ loc ∈ b.routes.routes.keys, loc <+: packagePath repo filename → loc = repoLocal repo) ∧
    ∀ filename dedup, bound.key filename dedup =
      b.pathKey (repoLocal repo) route (dedup.getD b.dedup) (packagePath repo filename)

/-- A path below a route is handled by that route's index or package location only, a path below `/purge` and a route by
that route's purge location, and every repository is bound to its own route. -/
structure Isolated (config : Config) (b : CacheKeyBuilder) (uri : Str) : Prop where
  served : ∀ loc route kind, b.routes.Has loc route kind → loc <+: uri →
    selectLocation config b.routes uri = .index (indexLocation config b.routes.keyPrefix loc route kind) ∨
    selectLocation config b.routes uri = .content (contentLocation config b.routes.keyPrefix loc route kind)
  purged : config.nginx.enablePurge = true → ∀ loc route kind, b.routes.Has loc route kind → purgePath loc <+: uri →
    selectLocation config b.routes uri = .purge (purgeLocation config b.routes.keyPrefix loc route kind)
  bound : BoundToRoute config b

/-- No route reaches below `/purge` and another route, and what follows the route there has no line break but a last one. -/
def PurgePathsFree (config : Config) (b : CacheKeyBuilder) (uri : Str) : Prop :=
  config.nginx.enablePurge = true → ∀ loc ∈ b.routes.routes.keys, ∀ rest, uri = purgePath (loc ++ rest) →
    (∀ loc' ∈ b.routes.routes.keys, ¬ loc' <+: uri) ∧ (captureRest rest).isSome = true

theorem boundToRoute {b : CacheKeyBuilder} (h : b.routes.Accepted config) : BoundToRoute config b := by
  intro repo hrepo
  obtain ⟨bound, route, hbound, hroute, -, hkey⟩ := CacheKeyBuilder.forRepo_ok h hrepo
  obtain ⟨-, -, -, hkind⟩ := h.owned repo hrepo
  refine ⟨bound, route, hbound, ⟨hroute, hkind⟩, fun filename => ?_, hkey⟩
  have hpre := repoLocal_prefix_packagePath repo filename
  exact ⟨hpre, fun loc hloc hp => h.route_unique hloc (h.mem_keys hrepo) hp hpre⟩

theorem served_of_free {b : CacheKeyBuilder} (h : b.routes.Accepted config) (hfree : PurgePathsFree config b uri)
    (hhas : b.routes.Has loc route kind) (hpre : loc <+: uri) :
    selectLocation config b.routes uri = .index (indexLocation config b.routes.keyPrefix loc route kind) ∨
    selectLocation config b.routes uri = .content (contentLocation config b.routes.keyPrefix loc route kind) := by
  have hadmin := not_admin_of_prefix h hhas.mem_keys hpre
  have hpurge : (purgeLocations config b.routes).find? (fun l => (l.captures uri).isSome) = none := by
    rw [List.find?_eq_none]
    intro l hl hcaptured
    obtain ⟨henabled, loc', route', kind', hhas', rfl⟩ := mem_purgeLocations hl
    obtain ⟨c, hc⟩ := Option.isSome_iff_exists.1 hcaptured
    obtain ⟨rest, hrest, -⟩ := captures_eq_some hc
    exact (hfree henabled loc' hhas'.mem_keys rest hrest).1 loc hhas.mem_keys hpre
  cases hindex : (indexLocations config b.routes).find? (·.matchesPath uri) with
  | some l =>
    have hsel : selectLocation config b.routes uri = .index l := by
      unfold selectLocation
      rw [if_neg hadmin, hindex]
    refine Or.inl (hsel.trans ?_)
    rw [index_of_selectLocation h hhas.found hhas.kind hpre hsel]
  | none =>
    refine Or.inr ?_
    unfold selectLocation
    rw [if_neg hadmin, hindex, hpurge]
    exact prefixLocation_of_prefix h hhas hpre

theorem purged_of_free {b : CacheKeyBuilder} (h : b.routes.Accepted config) (hfree : PurgePathsFree config b uri)
    (hpurge : config.nginx.enablePurge = true) (hhas : b.routes.Has loc route kind) (hpre : purgePath loc <+: uri) :
    selectLocation config b.routes uri = .purge (purgeLocation config b.routes.keyPrefix loc route kind) := by
  obtain ⟨rest, hrest⟩ := hpre
  have huri : uri = purgePath (loc ++ rest) := by rw [← hrest, purgePath, purgePath, List.append_assoc]
  obtain ⟨hnone, hcapture⟩ := hfree hpurge loc hhas.mem_keys rest huri
  have hindex : (indexLocations config b.routes).find? (·.matchesPath uri) = none := by
    rw [List.find?_eq_none]
    intro l hl hmatch
    obtain ⟨loc', hloc', hx⟩ := List.mem_filterMap.1 hl
    obtain ⟨route', -, hx⟩ := Option.bind_eq_some_iff.1 hx
    obtain ⟨kind', -, rfl⟩ := Option.map_eq_some_iff.1 hx
    unfold IndexLocation.matchesPath at hmatch
    rw [Bool.and_eq_true, startsWith_iff] at hmatch
    exact hnone loc' (mem_sortedStr.1 hloc') hmatch.1
  unfold selectLocation
  rw [if_neg (not_admin_of_purge h hhas.mem_keys ⟨rest, hrest⟩), hindex]
  subst huri
  rw [find?_purgeLocations h hpurge hhas hcapture]

theorem accepted_of_new {b : CacheKeyBuilder} (h : CacheKeyBuilder.new config = .ok b) : b.routes.Accepted config := by
  obtain ⟨routes, hroutes, hb⟩ := bind_eq_ok.1 h
  cases hb
  exact computeRoutes_accepted hroutes

/-- **Routes are isolated at a path** exactly when, with purging enabled, a path below `/purge` and a route is below no
route itself and its rest can be captured. -/
theorem isolated_iff {b : CacheKeyBuilder} (h : CacheKeyBuilder.new config = .ok b) (uri : Str) :
    Isolated config b uri ↔ PurgePathsFree config b uri := by
  have hacc := accepted_of_new h
  constructor
  · intro hiso hpurge loc hloc rest huri
    obtain ⟨route, kind, hhas⟩ := hacc.has hloc
    have hpre : purgePath loc <+: uri := ⟨rest, by rw [huri, purgePath, purgePath, List.append_assoc]⟩
    have hsel := hiso.purged hpurge loc route kind hhas hpre
    refine ⟨fun loc' hloc' hpre' => ?_, ?_⟩
    · obtain ⟨route', kind', hhas'⟩ := hacc.has hloc'
      rcases hiso.served loc' route' kind' hhas' hpre' with hs | hs <;> rw [hsel] at hs <;> cases hs
    · unfold selectLocation at hsel
      split at hsel
      · cases hsel
      split at hsel
      · cases hsel
      split at hsel
      · rename_i l hfind
        cases hsel
        have hcaptured := List.find?_some hfind
        rw [huri, show loc = (purgeLocation config b.routes.keyPrefix loc route kind).loc from rfl] at hcaptured
        exact (congrArg Option.isSome (captures_purgePath _ rest)).symm.trans hcaptured
      · unfold prefixLocation at hsel
        split at hsel <;> cases hsel
  · intro hfree
    exact ⟨fun _ _ _ hhas hpre => served_of_free hacc hfree hhas hpre,
      fun hpurge _ _ _ hhas hpre => purged_of_free hacc hfree hpurge hhas hpre, boundToRoute hacc⟩

/-- Two repositories whose local prefixes are `/foo/` and `/purge/foo/`. -/
def nestedConfig : Config where
  checkInterval := 3600
  cacheBaseUrl := "http://127.0.0.1:8080".toList
  repos := [aptRepo "a" "http://h/foo", aptRepo "b" "http://i/purge/foo"]
  nginx := { enablePurge := true, indexTtl := 60 }
  idsNodup := by decide
  versionOk := by decide

theorem nestedConfig_ok : ∃ b, CacheKeyBuilder.new nestedConfig = .ok b := by
  have hok : (CacheKeyBuilder.new nestedConfig).isOk = true := by decide +kernel
  cases h : CacheKeyBuilder.new nestedConfig with
  | error e => simp [h, Except.isOk, Except.toBool] at hok
  | ok b => exact ⟨b, rfl⟩

theorem isolated_foo : ∃ b, CacheKeyBuilder.new nestedConfig = .ok b ∧
    Isolated nestedConfig b "/foo/pool/main/x.deb".toList := by
  obtain ⟨b, h⟩ := nestedConfig_ok
  refine ⟨b, h, (isolated_iff h _).2 fun _ loc _ rest heq => ?_⟩
  simp [purgePath] at heq

/-- A package of the second repository is handled by the purge location of the first. -/
theorem purge_takes_package : ∃ b l, CacheKeyBuilder.new nestedConfig = .ok b ∧
    "/purge/foo/".toList ∈ b.routes.routes.keys ∧
    selectLocation nestedConfig b.routes "/purge/foo/pool/main/x.deb".toList = .purge l ∧ l.loc = "/foo/".toList ∧
    ¬ Isolated nestedConfig b "/purge/foo/pool/main/x.deb".toList := by
  obtain ⟨b, h⟩ := nestedConfig_ok
  have hkeys : (CacheKeyBuilder.new nestedConfig).toOption.map (fun b => b.routes.routes.keys) =
      some ["/foo/".toList, "/purge/foo/".toList] := by decide +kernel
  have hsel : (CacheKeyBuilder.new nestedConfig).toOption.bind (fun b =>
      match selectLocation nestedConfig b.routes "/purge/foo/pool/main/x.deb".toList with
      | .purge l => some l.loc
      | _ => none) = some "/foo/".toList := by decide +kernel
  rw [h] at hkeys hsel
  simp only [Except.toOption, Option.map_some, Option.some.injEq, Option.bind_some] at hkeys hsel
  split at hsel
  · rename_i l hl
    refine ⟨b, l, h, by simp [hkeys], hl, Option.some.inj hsel, fun hiso => ?_⟩
    obtain ⟨route, kind, hhas⟩ := (accepted_of_new h).has (show "/purge/foo/".toList ∈ b.routes.routes.keys by simp [hkeys])
    rcases hiso.served _ route kind hhas ⟨"pool/main/x.deb".toList, rfl⟩ with hs | hs <;> rw [hl] at hs <;> cases hs
  · cases hsel

end Isolation
end RepoWatch
