import RepoWatch.DedupMap
import RepoWatch.Locations
import RepoWatch.ServingKeys
/-!
# DedupServing — the key of a redirected request

`dedupKeys` predicts the key under which nginx files a package whose path is redirected.  In a package location nginx looks
`$uri` up in the map once, without regard to the case of ASCII letters, goes to the path it finds, where the map variable
is empty, and takes the key of the location that serves that path.  `dedupKeys` follows chains of redirects, which the
accepted pairs do not have (`accepted_same_target`): all it can meet is a source that is its own target up to case.
-/
namespace RepoWatch

open Lib

/-! ## nginx -/

/-- The value of a path in a map of literal keys, in bytes; nginx takes no notice of the case of ASCII letters. -/
def literalValue (items : List Conf.MapItem) (uri : Str) : Option Str :=
  items.findSome? fun
    | .literal key value => if asciiLower (utf8 key) = asciiLower uri then some (utf8 value) else none
    | _ => none

/-- The key of a request for a path, after the redirect of the package location that serves it. -/
def redirectedKey (config : Config) (routes : Routes) (pairs : List (Str × Str)) (vars : Conf.Variables)
    (req : HttpRequest) (uri : Str) : Option Str :=
  match selectLocation config routes uri with
  | .content _ =>
    if !config.nginx.enableDedup then servedKey config routes req uri
    else (Conf.mapBody (renderDedup config pairs)).bind fun items =>
      match literalValue items uri with
      | none => servedKey config routes req uri
      | some value => (Conf.evalValue vars value).bind fun target =>
        -- `if ($repowatch_canonical_uri)` fails for an empty value and for `0`
        if target = [] ∨ target = ['0'] then servedKey config routes req uri
        else servedKey config routes req target
  | _ => servedKey config routes req uri

/-! ## The accepted pairs -/

/-- What is known of an accepted pair: the rows it comes from, its canonical file and its hash. -/
structure AcceptedPair (lower : Str → Str) (config : Config) (db : Database) (s t : Str) : Prop where
  proposed : ∃ d ∈ db.findDuplicateFiles, ∃ dup can, config.repoById d.repoId = some dup ∧
    config.repoById d.canonical = some can ∧ (dup.type ≠ .nix ∧ can.type ≠ .nix) ∧ s = packagePath dup d.filename ∧
    t = packagePath can d.canonicalFilename
  unique : ∀ t', (s, t') ∈ acceptedPairs lower config db db.findDuplicateFiles → t' = t
  noClash : ∀ p ∈ acceptedPairs lower config db db.findDuplicateFiles, lower p.1 = lower s → p.1 = s
  oneHash : ∃ hash, ∀ uri, uri = s ∨ uri = t → ∀ row, db.OwnedBy lower config uri row → row.contentHash = some hash

section Accepted
variable {lower : Str → Str} {config : Config} {db : Database} {s t : Str}

theorem proposal_eq_some {d : DuplicateFile} (h : proposal config d = some (s, t)) :
    ∃ dup can, config.repoById d.repoId = some dup ∧ config.repoById d.canonical = some can ∧
      (dup.type ≠ .nix ∧ can.type ≠ .nix) ∧ s = packagePath dup d.filename ∧ t = packagePath can d.canonicalFilename := by
  unfold proposal at h
  split at h
  · rename_i dup can hdup hcan
    split at h
    · cases h
    rename_i htype
    dsimp only at h
    split at h
    · cases h
    · cases h
      exact ⟨dup, can, hdup, hcan, not_or.1 htype, rfl, rfl⟩
  · cases h

theorem acceptedPair (h : (s, t) ∈ acceptedPairs lower config db db.findDuplicateFiles) :
    AcceptedPair lower config db s t := by
  obtain ⟨-, hres, hash, -, hown⟩ := mem_acceptedPairs h
  obtain ⟨hprop, huniq, hclash⟩ := mem_resolveDedupPairs.1 hres
  obtain ⟨d, hd, hp⟩ := List.mem_filterMap.1 hprop
  have hproposed : ∀ p ∈ acceptedPairs lower config db db.findDuplicateFiles,
      p ∈ db.findDuplicateFiles.filterMap (proposal config) := fun p hp =>
    (mem_resolveDedupPairs.1 (mem_acceptedPairs hp).2.1).1
  refine ⟨⟨d, hd, proposal_eq_some hp⟩, fun t' ht' => huniq t' (hproposed _ ht'),
    fun p hp hl => hclash p (hproposed p hp) hl, hash, fun uri huri => (hown uri huri).2⟩

/-- The file of a duplicate row has a row of the catalog, and its canonical file is that of the row's hash. -/
theorem duplicate_owner {d : DuplicateFile} (hd : d ∈ db.findDuplicateFiles) {dup : RepoConfig}
    (hdup : config.repoById d.repoId = some dup) {uri : Str} (hl : lower (packagePath dup d.filename) = lower uri) :
    ∃ row hash c, db.OwnedBy lower config uri row ∧ row.contentHash = some hash ∧ db.canonicalFile hash = some c ∧
      c.repoId = d.canonical ∧ c.filename = d.canonicalFilename := by
  obtain ⟨f, hf, c, -, -, hc, -, rfl⟩ := Database.mem_findDuplicateFiles.1 hd
  obtain ⟨⟨row, hrow, hfile⟩, hall, -⟩ := Database.mem_files.1 hf
  have hkey : row.repoId = f.repoId ∧ row.filename = f.filename := by simpa [PackageRow.file, FileHash.key] using hfile
  refine ⟨row, f.hash, c, ⟨hrow, dup, ?_, ?_⟩, hall row hrow hfile, hc, rfl, rfl⟩
  · rw [hkey.1]
    exact hdup
  · rw [hkey.2]
    exact hl

/-- **There are no chains**: a source that is another pair's target up to case has the same target. -/
theorem accepted_same_target {s' t' : Str} (h : AcceptedPair lower config db s t)
    (h' : AcceptedPair lower config db s' t') (hl : lower s' = lower t) : t' = t := by
  obtain ⟨d, hd, dup, can, hdup, hcan, -, rfl, rfl⟩ := h.proposed
  obtain ⟨d', hd', dup', can', hdup', hcan', -, rfl, rfl⟩ := h'.proposed
  obtain ⟨hash, hone⟩ := h.oneHash
  obtain ⟨row, g, c, hown, hg, hc, hcr, hcf⟩ := duplicate_owner hd hdup (Eq.refl (lower _))
  obtain ⟨row', g', c', hown', hg', hc', hcr', hcf'⟩ := duplicate_owner hd' hdup' hl
  have h1 := hone _ (Or.inl rfl) row hown
  have h2 := hone _ (Or.inr rfl) row' hown'
  rw [hg, Option.some.injEq] at h1
  rw [hg', Option.some.injEq] at h2
  rw [h1] at hc
  rw [h2, hc, Option.some.injEq] at hc'
  subst hc'
  rw [← hcr, hcr', hcan', Option.some.injEq] at hcan
  rw [hcan, ← hcf, hcf']

end Accepted

/-! ## The predicted keys -/

section Predicted
variable {lower : Str → Str} {config : Config} {db : Database} {s t : Str}

/-- The dictionary `rewrites`. -/
def rewritesOf (lower : Str → Str) (pairs : List (Str × Str)) : Dict Str Str :=
  .ofPairs (pairs.map fun p => (lower p.1, p.2))

theorem lookup_rewritesOf (h : (s, t) ∈ acceptedPairs lower config db db.findDuplicateFiles) :
    (rewritesOf lower (acceptedPairs lower config db db.findDuplicateFiles)).lookup (lower s) = some t := by
  have ha := acceptedPair h
  refine Dict.lookup_ofPairs_eq_some ?_ fun q hq hqk => ?_
  · simp only [List.map_map, List.mem_map]
    exact ⟨(s, t), h, rfl⟩
  · obtain ⟨p, hp, rfl⟩ := List.mem_map.1 hq
    have hps := ha.noClash p hp hqk
    exact ha.unique p.2 (hps ▸ hp)

theorem lookup_rewritesOf_none {pairs : List (Str × Str)} {u : Str} (h : ∀ p ∈ pairs, lower p.1 ≠ u) :
    (rewritesOf lower pairs).lookup u = none := by
  refine Dict.lookup_ofPairs_eq_none fun hm => ?_
  simp only [List.map_map, List.mem_map, Function.comp_apply] at hm
  obtain ⟨p, hp, hpu⟩ := hm
  exact h p hp hpu

/-- **The key of a canonical path** is the key of its canonical file. -/
theorem lookup_canonicalKeys {builder : CacheKeyBuilder} (hb : builder.routes.Accepted config)
    {bound : Dict Str BoundKey} (hbound : boundKeys config builder = .ok bound) {rows : List DuplicateFile}
    {d : DuplicateFile} (hd : d ∈ rows) {can : RepoConfig} (hcan : config.repoById d.canonical = some can)
    {k : BoundKey} (hk : builder.forRepo can = .ok k) :
    (canonicalKeys config bound rows).lookup (packagePath can d.canonicalFilename) = some (k.key d.canonicalFilename) := by
  have hmem : ∀ {q : Str × Str}, q ∈ (rows.filterMap fun d => (config.repoById d.canonical).bind fun repo =>
      (bound.lookup d.canonical).map fun k => (packagePath repo d.canonicalFilename, k.key d.canonicalFilename)) ↔
      ∃ d ∈ rows, ∃ repo k, config.repoById d.canonical = some repo ∧ builder.forRepo repo = .ok k ∧
        q = (packagePath repo d.canonicalFilename, k.key d.canonicalFilename) := fun {q} => by
    simp only [List.mem_filterMap, Option.bind_eq_some_iff, Option.map_eq_some_iff, boundKeys_lookup hbound]
    constructor
    · rintro ⟨d, hd, repo, hrepo, k, ⟨repo', hrepo', hk⟩, rfl⟩
      rw [hrepo, Option.some.injEq] at hrepo'
      exact ⟨d, hd, repo, k, hrepo, hrepo' ▸ hk, rfl⟩
    · rintro ⟨d, hd, repo, k, hrepo, hk, rfl⟩
      exact ⟨d, hd, repo, hrepo, k, ⟨repo, hrepo, hk⟩, rfl⟩
  refine Dict.lookup_ofPairs_eq_some (List.mem_map.2 ⟨_, hmem.2 ⟨d, hd, can, k, hcan, hk, rfl⟩, rfl⟩) fun q hq hqk => ?_
  obtain ⟨d', -, can', k', hcan', hk', rfl⟩ := hmem.1 hq
  exact CacheKeyBuilder.key_congr hb (Config.repoById_eq_some hcan').1 (Config.repoById_eq_some hcan).1 hk' hk hqk none

/-- A source of the pairs is the target up to case. -/
def TargetIsSource (lower : Str → Str) (pairs : List (Str × Str)) (t : Str) : Prop := ∃ p ∈ pairs, lower p.1 = lower t

/-- **The predicted key** of an accepted pair: none where a source is the target up to case, else the target's key. -/
theorem lookup_dedupKeys {builder : CacheKeyBuilder} (hb : builder.routes.Accepted config)
    (hdedup : config.nginx.enableDedup = true) (h : (s, t) ∈ acceptedPairs lower config db db.findDuplicateFiles) :
    ∃ keys key, dedupKeys lower config db.findDuplicateFiles builder
        (acceptedPairs lower config db db.findDuplicateFiles) = .ok keys ∧ keys.lookup (lower s) = some key ∧
      (TargetIsSource lower (acceptedPairs lower config db db.findDuplicateFiles) t → key = []) ∧
      (¬ TargetIsSource lower (acceptedPairs lower config db db.findDuplicateFiles) t →
        ∃ can ∈ config.repos, ∃ filename k, can.type ≠ .nix ∧ t = packagePath can filename ∧
          builder.forRepo can = .ok k ∧ key = k.key filename) := by
  obtain ⟨bound, hbound⟩ := boundKeys_ok hb
  have ha := acceptedPair h
  have hrew := lookup_rewritesOf h
  obtain ⟨rewrites, hrewrites⟩ : ∃ r, r = rewritesOf lower (acceptedPairs lower config db db.findDuplicateFiles) := ⟨_, rfl⟩
  rw [← hrewrites] at hrew
  obtain ⟨targets, htargets⟩ : ∃ r, r = canonicalKeys config bound db.findDuplicateFiles := ⟨_, rfl⟩
  obtain ⟨value, hvalue⟩ : ∃ v : Str × Str → Str, v = fun row => if lower (follow lower rewrites [row.1] row.2).2 ∈
      (follow lower rewrites [row.1] row.2).1 then []
      else (targets.lookup (follow lower rewrites [row.1] row.2).2).getD [] := ⟨_, rfl⟩
  have hkeys : dedupKeys lower config db.findDuplicateFiles builder
      (acceptedPairs lower config db db.findDuplicateFiles) =
      .ok (.ofPairs (rewrites.rows.map fun row => (row.1, value row))) := by
    unfold dedupKeys
    rw [if_neg (by simp [hdedup])]
    refine bind_eq_ok.2 ⟨bound, hbound, ?_⟩
    rw [hvalue, htargets, hrewrites]
    rfl
  have hlookup : (Dict.ofPairs (rewrites.rows.map fun row => (row.1, value row))).lookup (lower s) =
      some (value (lower s, t)) := by
    have hrow := Dict.lookup_eq_some_iff.1 hrew
    refine Dict.lookup_ofPairs_eq_some (by simpa using ⟨t, hrow⟩) fun q hq hqk => ?_
    obtain ⟨⟨u, v⟩, huv, rfl⟩ := List.mem_map.1 hq
    dsimp only at hqk ⊢
    subst hqk
    have := Dict.lookup_eq_some_iff.2 huv
    rw [hrew, Option.some.injEq] at this
    rw [this]
  refine ⟨_, _, hkeys, hlookup, ?_, fun hno => ?_⟩
  · rintro ⟨⟨s', t'⟩, hp, hl⟩
    -- the walk comes back to the target, at once or after one step
    rw [hvalue]
    dsimp only
    by_cases hself : lower t ∈ [lower s]
    · rw [follow_of_mem hself, if_pos hself]
    · have hnext : rewrites.lookup (lower t) = some t := by
        have := lookup_rewritesOf hp
        rw [← hrewrites, hl, accepted_same_target ha (acceptedPair hp) hl] at this
        exact this
      rw [follow_of_some hself hnext, follow_of_mem List.mem_cons_self, if_pos List.mem_cons_self]
  · obtain ⟨d, hd, dup, can, hdup, hcan, htype, rfl, rfl⟩ := ha.proposed
    have hmem := (Config.repoById_eq_some hcan).1
    obtain ⟨k, -, hk, -⟩ := CacheKeyBuilder.forRepo_ok hb hmem
    refine ⟨can, hmem, d.canonicalFilename, k, htype.2, rfl, hk, ?_⟩
    have hnone : rewrites.lookup (lower (packagePath can d.canonicalFilename)) = none :=
      hrewrites ▸ lookup_rewritesOf_none fun p hp he => hno ⟨p, hp, he⟩
    have hne : lower (packagePath can d.canonicalFilename) ∉ [lower (packagePath dup d.filename)] := by
      rw [List.mem_singleton]
      exact fun he => hno ⟨_, h, he.symm⟩
    rw [hvalue]
    dsimp only
    rw [follow_of_none hnone, if_neg hne, htargets, lookup_canonicalKeys hb hbound hd hcan hk]
    rfl

end Predicted

/-! ## The keys that are used -/

section Used
variable {config : Config} {routes : Routes}

theorem Route.rewritten_append_length (route : Route) (loc rest : Str) :
    rest.length ≤ (route.rewritten loc (loc ++ rest)).length + 1 := by
  unfold Route.rewritten
  rw [List.drop_left]
  split
  · rw [List.length_append]
    omega
  · split
    · rename_i c hc
      have := le_captureRest_length hc
      rw [List.length_append]
      omega
    · rw [List.length_append]
      omega

/-- **The location's rewrite** puts the upstream's prefix before a path that has no line break, or where it is the prefix
already. -/
theorem Route.rewritten_eq_iff {route : Route} {loc rest : Str} :
    route.rewritten loc (loc ++ rest) = route.remote ++ rest ↔ (loc ≠ route.remote → '\n' ∉ rest) := by
  unfold Route.rewritten
  rw [List.drop_left]
  by_cases hl : loc = route.remote
  · rw [if_pos hl, ← hl]
    exact ⟨fun _ hn => absurd rfl hn, fun _ => rfl⟩
  · rw [if_neg hl, ← captureRest_eq_self]
    cases captureRest rest with
    | none => simp [hl]
    | some c => simp [hl]

variable {loc : Str} {route : Route} {kind : RepoType} (hacc : routes.Accepted config)
  (hdollar : '$' ∉ routes.keyPrefix) (hroute : routes.routes.lookup loc = some route)
  (hkind : routes.kinds.lookup loc = some kind) (hnix : kind ≠ .nix)

include hacc hdollar hroute hkind hnix

/-- **Outside the package location** a key is as long as the raw target. -/
theorem servedKey_length_of_not_package {uri : Str} (hpre : loc <+: uri) (hserved : ¬ ServedAsPackage config routes uri)
    {req : HttpRequest} {key : Str} (h : servedKey config routes req uri = some key) :
    req.requestUri.length ≤ key.length := by
  cases hl : selectLocation config routes uri with
  | index l =>
    obtain ⟨before, hkey⟩ := servedKey_of_index hacc hdollar hroute hkind hnix hpre hl req
    rw [h, Option.some.injEq] at hkey
    rw [hkey, List.length_append]
    omega
  | content l => exact absurd ⟨l, hl⟩ hserved
  | admin path => rw [servedKey, hl] at h; cases h
  | purge l => rw [servedKey, hl] at h; cases h
  | root => rw [servedKey, hl] at h; cases h

/-- **The key of a long path** is long, in a request with a long raw target. -/
theorem servedKey_long (hdedup : config.nginx.enableDedup = true) {rest : Str} {n : Nat} (hrest : n + 1 ≤ rest.length)
    {req : HttpRequest} (hreq : n ≤ req.requestUri.length) {key : Str}
    (h : servedKey config routes req (loc ++ rest) = some key) : n ≤ key.length := by
  by_cases hserved : ServedAsPackage config routes (loc ++ rest)
  · rw [servedKey_of_content hacc hserved, contentKey_eq hacc hdollar hroute hkind (List.prefix_append ..),
      Option.some.injEq] at h
    have hlen := route.rewritten_append_length loc rest
    rw [← h, contentBasis, if_pos hdedup, if_neg hnix]
    simp only [List.length_append, List.length_nil]
    omega
  · exact hreq.trans (servedKey_length_of_not_package hacc hdollar hroute hkind hnix (List.prefix_append ..) hserved h)

end Used

/-! ## The comparison -/

/-- The key that is predicted for a source is there, is not empty, and is the key of every request for the source. -/
def DedupKeyAgrees (lower : Str → Str) (config : Config) (routes : Routes) (db : Database) (source : Str) : Prop :=
  ∃ keys key, dedupKeys lower config db.findDuplicateFiles ⟨routes, config.nginx.enableDedup⟩
      (acceptedPairs lower config db db.findDuplicateFiles) = .ok keys ∧ keys.lookup (lower source) = some key ∧
    key ≠ [] ∧ ∀ vars req, req.path = utf8 source →
      redirectedKey config routes (acceptedPairs lower config db db.findDuplicateFiles) vars req (utf8 source) =
        some (utf8 key)

/-- What an accepted pair needs for its key to be predicted. -/
structure Predictable (lower : Str → Str) (config : Config) (routes : Routes) (pairs : List (Str × Str))
    (source target : Str) : Prop where
  sourceIsPackage : ServedAsPackage config routes (utf8 source)
  targetIsPackage : ServedAsPackage config routes (utf8 target)
  noSource : ¬ TargetIsSource lower pairs target
  noVariable : '$' ∉ target
  oneLine : ∀ loc route, routes.routes.lookup loc = some route → loc <+: target → loc ≠ route.remote → '\n' ∉ target

section Comparison
variable {lower : Str → Str} {config : Config} {routes : Routes} {db : Database} {s t : Str}

theorem Routes.Accepted.repoLocal_head (h : routes.Accepted config) {repo : RepoConfig} (hr : repo ∈ config.repos) :
    (repoLocal repo).head? = some '/' := by
  obtain ⟨r, hroute, -⟩ := h.owned repo hr
  have huri := (repoRoute_ok hroute).2.1
  unfold isUri at huri
  rw [Bool.and_eq_true, Bool.and_eq_true, beq_iff_eq] at huri
  exact huri.1.1

theorem Routes.Accepted.packagePath_head (h : routes.Accepted config) {repo : RepoConfig} (hr : repo ∈ config.repos)
    (filename : Str) : (packagePath repo filename).head? = some '/' := by
  obtain ⟨rest, hrest⟩ := repoLocal_prefix_packagePath repo filename
  rw [← hrest, List.head?_append, h.repoLocal_head hr]
  rfl

theorem literalValue_source (hlower : ∀ x, lower (asciiLower x) = lower x)
    (h : (s, t) ∈ acceptedPairs lower config db db.findDuplicateFiles) :
    literalValue ((acceptedPairs lower config db db.findDuplicateFiles).map fun p => .literal p.1 p.2) (utf8 s) =
      some (utf8 t) := by
  have ha := acceptedPair h
  unfold literalValue
  rw [List.findSome?_map]
  cases hf : (acceptedPairs lower config db db.findDuplicateFiles).findSome? _ with
  | none =>
    have := List.findSome?_eq_none_iff.1 hf (s, t) h
    simp at this
  | some value =>
    obtain ⟨p, hp, hv⟩ := List.exists_of_findSome?_eq_some hf
    simp only [Function.comp_apply, Option.ite_none_right_eq_some, Option.some.injEq] at hv
    obtain ⟨hl, rfl⟩ := hv
    rw [asciiLower_utf8, asciiLower_utf8] at hl
    have hps := ha.noClash p hp (by rw [← hlower, utf8_injective hl, hlower])
    rw [ha.unique p.2 (hps ▸ hp)]

/-- **The redirect** of a source that a package location serves. -/
theorem redirectedKey_source (hlower : ∀ x, lower (asciiLower x) = lower x) (hacc : routes.Accepted config)
    (h : (s, t) ∈ acceptedPairs lower config db db.findDuplicateFiles) (hserved : ServedAsPackage config routes (utf8 s))
    (vars : Conf.Variables) (req : HttpRequest) :
    redirectedKey config routes (acceptedPairs lower config db db.findDuplicateFiles) vars req (utf8 s) =
      (Conf.evalValue vars (utf8 t)).bind fun target =>
        if target = [] ∨ target = ['0'] then servedKey config routes req (utf8 s)
        else servedKey config routes req target := by
  have hbody : Conf.mapBody (renderDedup config (acceptedPairs lower config db db.findDuplicateFiles)) = some
      ((acceptedPairs lower config db db.findDuplicateFiles).map fun p => .literal p.1 p.2) :=
    mapBody_renderDedup config fun p hp => by
      obtain ⟨d, -, dup, can, hdup, -, -, hs, -⟩ := (acceptedPair (s := p.1) (t := p.2) hp).proposed
      rw [hs]
      exact hacc.packagePath_head (Config.repoById_eq_some hdup).1 _
  obtain ⟨l, hl⟩ := hserved
  unfold redirectedKey
  rw [hl]
  dsimp only
  rw [if_neg (by simp [(mem_acceptedPairs h).1]), hbody, Option.bind_some, literalValue_source hlower h]

theorem redirectedKey_of_not_package {pairs : List (Str × Str)} {uri : Str}
    (hserved : ¬ ServedAsPackage config routes uri) (vars : Conf.Variables) (req : HttpRequest) :
    redirectedKey config routes pairs vars req uri = servedKey config routes req uri := by
  cases hl : selectLocation config routes uri with
  | content l => exact absurd ⟨l, hl⟩ hserved
  | index l => rw [redirectedKey, hl]
  | admin path => rw [redirectedKey, hl]
  | purge l => rw [redirectedKey, hl]
  | root => rw [redirectedKey, hl]

/-- A package path under its route, and the key that is predicted for it, in bytes. -/
structure RoutedPath (routes : Routes) (path key loc rest : Str) (route : Route) (kind : RepoType) : Prop where
  found : routes.routes.lookup loc = some route
  kindFound : routes.kinds.lookup loc = some kind
  notNix : kind ≠ .nix
  locPlain : ∀ c ∈ loc, c ≠ '$' ∧ c ≠ '\n'
  head : loc.head? = some '/'
  pre : loc <+: path
  path_eq : utf8 path = loc ++ rest
  key_eq : utf8 key = routes.keyPrefix ++ ("http".toList ++ (route.host ++ (route.remote ++ rest)))

theorem routedPath (h : computeRoutes config = .ok routes) (hdedup : config.nginx.enableDedup = true) {repo : RepoConfig}
    (hr : repo ∈ config.repos) (hnix : repo.type ≠ .nix) {k : BoundKey}
    (hk : CacheKeyBuilder.forRepo ⟨routes, config.nginx.enableDedup⟩ repo = .ok k) (filename : Str) :
    ∃ loc rest route kind, RoutedPath routes (packagePath repo filename) (k.key filename) loc rest route kind := by
  have hacc := computeRoutes_accepted h
  obtain ⟨route, hown⟩ := hacc.ownRoute hr
  obtain ⟨slashes, hslashes, hpath⟩ := packagePath_split repo
  have hkey := utf8_key h hr hown hslashes hpath hk filename
  rw [if_pos hdedup] at hkey
  refine ⟨repoLocal repo, slashes ++ utf8 filename, route, repo.type, hown.found, hown.kind, hnix, fun c hc => ?_,
    hacc.repoLocal_head hr, repoLocal_prefix_packagePath repo filename, ?_, hkey⟩
  · have hplain := (plainChar_of_uriChar (hown.locPlain c hc)).noSyntax
    exact ⟨hplain.1, hplain.2.2.2.2⟩
  · rw [hpath, utf8_append, utf8_append, utf8_uriChars hown.locPlain, utf8_uriChars (slash_uriChar hslashes)]

namespace RoutedPath
variable {path key loc rest : Str} {route : Route} {kind : RepoType}

theorem mem_rest (h : RoutedPath routes path key loc rest route kind) {c : Char} (hc : c.toNat < 128) (hloc : c ∉ loc) :
    c ∈ rest ↔ c ∈ path := by
  rw [← mem_utf8_of_ascii hc (s := path), h.path_eq, List.mem_append]
  exact ⟨Or.inr, fun hm => hm.resolve_left hloc⟩

/-- **The key of the path** is the predicted one exactly when the location's rewrite takes all of the path. -/
theorem servedKey_eq_iff (h : RoutedPath routes path key loc rest route kind) (hacc : routes.Accepted config)
    (hdollar : '$' ∉ routes.keyPrefix) (hdedup : config.nginx.enableDedup = true)
    (hserved : ServedAsPackage config routes (utf8 path)) (req : HttpRequest) :
    servedKey config routes req (utf8 path) = some (utf8 key) ↔ ∀ loc route, routes.routes.lookup loc = some route →
      loc <+: path → loc ≠ route.remote → '\n' ∉ path := by
  have hnewline : '\n' ∉ rest ↔ '\n' ∉ path := not_congr (h.mem_rest (by decide) fun hm => (h.locPlain _ hm).2 rfl)
  rw [servedKey_of_content hacc hserved, contentKey_eq hacc hdollar h.found h.kindFound (h.path_eq ▸ List.prefix_append ..),
    h.key_eq, Option.some.injEq, List.append_cancel_left_eq, List.append_cancel_left_eq, List.append_cancel_left_eq,
    contentBasis, if_pos hdedup, if_neg h.notNix, List.append_nil, h.path_eq, Route.rewritten_eq_iff, hnewline]
  refine ⟨fun hone loc' route' hfound' hpre' => ?_, fun hall => hall loc route h.found h.pre⟩
  obtain rfl : loc' = loc := hacc.route_unique (List.mem_map_of_mem (Dict.lookup_eq_some_iff.1 hfound'))
    (List.mem_map_of_mem (Dict.lookup_eq_some_iff.1 h.found)) hpre' h.pre
  rw [h.found, Option.some.injEq] at hfound'
  exact hfound' ▸ hone

/-- Text after the route's prefix is no value that the package location takes for none. -/
theorem not_blank (h : RoutedPath routes path key loc rest route kind) (r : Str) :
    ¬ (loc ++ r = [] ∨ loc ++ r = ['0']) := by
  obtain ⟨c, l, rfl⟩ : ∃ c l, loc = c :: l := by
    cases hloc : loc with
    | nil =>
      have := h.head
      rw [hloc] at this
      cases this
    | cons c l => exact ⟨c, l, rfl⟩
  obtain rfl : c = '/' := by simpa using h.head
  rintro (he | he)
  · cases he
  · cases he

end RoutedPath

/-- A request for a path with a raw target of the given length. -/
def longRequest (n : Nat) (path : Str) : HttpRequest := ⟨List.replicate n 'x', path, []⟩

/-- **When nginx uses the predicted key**, for a pair whose target is no source. -/
theorem redirectedKey_iff (hlower : ∀ x, lower (asciiLower x) = lower x) (h : computeRoutes config = .ok routes)
    (hpair : (s, t) ∈ acceptedPairs lower config db db.findDuplicateFiles) {key loc rest : Str} {route : Route}
    {kind : RepoType} (ht : RoutedPath routes t key loc rest route kind) :
    (∀ vars req, req.path = utf8 s → redirectedKey config routes
        (acceptedPairs lower config db db.findDuplicateFiles) vars req (utf8 s) = some (utf8 key)) ↔
      ServedAsPackage config routes (utf8 s) ∧ ServedAsPackage config routes (utf8 t) ∧ '$' ∉ t ∧
        ∀ loc route, routes.routes.lookup loc = some route → loc <+: t → loc ≠ route.remote → '\n' ∉ t := by
  have hacc := computeRoutes_accepted h
  have hkeyDollar := dollar_not_mem_keyPrefix h
  have hdedup := (mem_acceptedPairs hpair).1
  have hdollar : '$' ∈ rest ↔ '$' ∈ t := ht.mem_rest (by decide) fun hm => (ht.locPlain _ hm).1 rfl
  have hloc : '$' ∉ loc := fun hm => (ht.locPlain _ hm).1 rfl
  constructor
  · intro hall
    -- a request whose raw target is longer than the predicted key tells the two apart wherever the key has the target
    have hlong := fun vars : Conf.Variables => hall vars (longRequest ((utf8 key).length + 1) (utf8 s)) rfl
    have hreq : (longRequest ((utf8 key).length + 1) (utf8 s)).requestUri.length = (utf8 key).length + 1 :=
      List.length_replicate
    have hsource : ServedAsPackage config routes (utf8 s) := by
      by_contra hn
      obtain ⟨d, -, dup, can, hdup, -, hnix, rfl, -⟩ := (acceptedPair hpair).proposed
      have hr := (Config.repoById_eq_some hdup).1
      obtain ⟨k, -, hk, -⟩ := CacheKeyBuilder.forRepo_ok (b := ⟨routes, config.nginx.enableDedup⟩) hacc hr
      obtain ⟨loc', rest', route', kind', hs⟩ := routedPath h hdedup hr hnix.1 hk d.filename
      have hused := hlong ⟨fun _ => none, fun _ => []⟩
      rw [redirectedKey_of_not_package hn] at hused
      have := servedKey_length_of_not_package hacc hkeyDollar hs.found hs.kindFound hs.notNix
        (hs.path_eq ▸ List.prefix_append ..) hn hused
      omega
    have hplain : '$' ∉ t := by
      intro hm
      obtain ⟨vars, hvars⟩ := Conf.evalValue_long (hdollar.2 hm) ((utf8 key).length + 2)
      have hused := hlong vars
      rw [redirectedKey_source hlower hacc hpair hsource, ht.path_eq, Conf.evalValue_append vars hloc] at hused
      obtain ⟨target, htarget, hused⟩ := Option.bind_eq_some_iff.1 hused
      obtain ⟨r, hr, rfl⟩ := Option.map_eq_some_iff.1 htarget
      rw [if_neg (ht.not_blank r)] at hused
      have := servedKey_long hacc hkeyDollar ht.found ht.kindFound ht.notNix hdedup (n := (utf8 key).length + 1) (hvars r hr)
        hreq.ge hused
      omega
    have htarget : ∀ req : HttpRequest, req.path = utf8 s → servedKey config routes req (utf8 t) = some (utf8 key) := by
      intro req hpath
      have hused := hall ⟨fun _ => none, fun _ => []⟩ req hpath
      rw [redirectedKey_source hlower hacc hpair hsource, Conf.evalValue_of_not_mem _
        (mt (mem_utf8_of_ascii (by decide)).1 hplain), Option.bind_some, ht.path_eq, if_neg (ht.not_blank rest),
        ← ht.path_eq] at hused
      exact hused
    have hserved : ServedAsPackage config routes (utf8 t) := by
      by_contra hn
      have := servedKey_length_of_not_package hacc hkeyDollar ht.found ht.kindFound ht.notNix
        (ht.path_eq ▸ List.prefix_append ..) hn (htarget (longRequest ((utf8 key).length + 1) (utf8 s)) rfl)
      omega
    exact ⟨hsource, hserved, hplain, (ht.servedKey_eq_iff hacc hkeyDollar hdedup hserved _).1
      (htarget (longRequest 0 (utf8 s)) rfl)⟩
  · rintro ⟨hsource, hserved, hplain, hline⟩ vars req -
    rw [redirectedKey_source hlower hacc hpair hsource, Conf.evalValue_of_not_mem vars
      (mt (mem_utf8_of_ascii (by decide)).1 hplain), Option.bind_some, ht.path_eq, if_neg (ht.not_blank rest), ← ht.path_eq]
    exact (ht.servedKey_eq_iff hacc hkeyDollar hdedup hserved req).2 hline

/-- **When the predicted key is the key that nginx uses.** -/
theorem dedupKeyAgrees_iff (lower : Str → Str) (hlower : ∀ x, lower (asciiLower x) = lower x) (config : Config)
    (routes : Routes) (h : computeRoutes config = .ok routes) (db : Database) (source target : Str)
    (hpair : (source, target) ∈ acceptedPairs lower config db db.findDuplicateFiles) :
    DedupKeyAgrees lower config routes db source ↔
      Predictable lower config routes (acceptedPairs lower config db db.findDuplicateFiles) source target := by
  have hdedup := (mem_acceptedPairs hpair).1
  have hacc : (CacheKeyBuilder.mk routes config.nginx.enableDedup).routes.Accepted config := computeRoutes_accepted h
  obtain ⟨keys, key, hkeys, hlookup, hself, hother⟩ := lookup_dedupKeys hacc hdedup hpair
  have hagrees : DedupKeyAgrees lower config routes db source ↔ key ≠ [] ∧ ∀ vars req, req.path = utf8 source →
      redirectedKey config routes (acceptedPairs lower config db db.findDuplicateFiles) vars req (utf8 source) =
        some (utf8 key) := by
    refine ⟨?_, fun hk => ⟨keys, key, hkeys, hlookup, hk⟩⟩
    rintro ⟨keys', key', hk', hl', hrest⟩
    rw [hkeys] at hk'
    cases hk'
    rw [hlookup] at hl'
    cases hl'
    exact hrest
  rw [hagrees]
  by_cases hts : TargetIsSource lower (acceptedPairs lower config db db.findDuplicateFiles) target
  · exact ⟨fun hk => absurd (hself hts) hk.1, fun hp => absurd hts hp.noSource⟩
  · obtain ⟨can, hcan, filename, k, hnix, rfl, hk, rfl⟩ := hother hts
    obtain ⟨loc, rest, route, kind, ht⟩ := routedPath h hdedup hcan hnix hk filename
    have hne : k.key filename ≠ [] := fun he => by
      have hkey := ht.key_eq
      rw [he] at hkey
      have := congrArg List.length hkey
      simp [utf8] at this
    rw [redirectedKey_iff hlower h hpair ht]
    exact ⟨fun ⟨_, hs, ht, hd, hl⟩ => ⟨hs, ht, hts, hd, hl⟩,
      fun ⟨hs, ht, _, hd, hl⟩ => ⟨hne, hs, ht, hd, hl⟩⟩

end Comparison

def isPackage : Location → Bool
  | .content _ => true
  | _ => false

theorem servedAsPackage_of_isPackage {config : Config} {routes : Routes} {uri : Str}
    (h : isPackage (selectLocation config routes uri) = true) : ServedAsPackage config routes uri := by
  unfold ServedAsPackage
  cases hl : selectLocation config routes uri with
  | content l => exact ⟨l, rfl⟩
  | index l => rw [hl] at h; cases h
  | admin path => rw [hl] at h; cases h
  | purge l => rw [hl] at h; cases h
  | root => rw [hl] at h; cases h

theorem asciiLower_asciiLower (s : Str) : asciiLower (asciiLower s) = asciiLower s := by
  unfold asciiLower
  rw [List.map_map]
  refine List.map_congr_left fun c _ => ?_
  by_cases hc : c.toNat < 128
  · exact forall_ascii (P := fun c => c.toLower.toLower = c.toLower) (by decide) hc
  · rw [Function.comp_apply, toLower_of_not_ascii hc, toLower_of_not_ascii hc]

theorem dedupKeyAgrees_iff_twins : ∃ routes, computeRoutes twinConfig = .ok routes ∧
    DedupKeyAgrees asciiLower twinConfig routes twinDb "/rpm/b/q.rpm".toList := by
  have hpairs : acceptedPairs asciiLower twinConfig twinDb twinDb.findDuplicateFiles =
      [("/rpm/b/q.rpm".toList, "/rpm/a/p.rpm".toList)] := by decide
  have hpackage : (computeRoutes twinConfig).toOption.all (fun routes =>
      isPackage (selectLocation twinConfig routes (utf8 "/rpm/b/q.rpm".toList)) &&
        isPackage (selectLocation twinConfig routes (utf8 "/rpm/a/p.rpm".toList))) = true := by decide +kernel
  have hok : (computeRoutes twinConfig).isOk = true := by decide +kernel
  cases h : computeRoutes twinConfig with
  | error e => simp [h, Except.isOk, Except.toBool] at hok
  | ok routes =>
    rw [h, Except.toOption, Option.all_some, Bool.and_eq_true] at hpackage
    refine ⟨routes, rfl, (dedupKeyAgrees_iff asciiLower asciiLower_asciiLower twinConfig routes h twinDb
      "/rpm/b/q.rpm".toList "/rpm/a/p.rpm".toList (by rw [hpairs]; simp)).2 ?_⟩
    rw [hpairs]
    refine ⟨servedAsPackage_of_isPackage hpackage.1, servedAsPackage_of_isPackage hpackage.2, ?_, by decide,
      fun _ _ _ _ _ => by decide⟩
    rintro ⟨p, hp, hl⟩
    rw [List.mem_singleton] at hp
    subst hp
    exact absurd hl (by decide)

/-- A repository that lists one file under two names that differ in case. -/
def caseDb : Database :=
  { twinDb with
    repoPackages := Table.empty.upsertAll
      [⟨"a".toList, "p-1".toList, none, "Foo.rpm".toList, some "f0".toList⟩,
       ⟨"a".toList, "p-2".toList, none, "foo.rpm".toList, some "f0".toList⟩] }

/-- The redirect of `caseDb` is accepted, nginx has a key for it, and none is predicted. -/
theorem dedupKeys_case : acceptedPairs asciiLower twinConfig caseDb caseDb.findDuplicateFiles =
      [("/rpm/a/foo.rpm".toList, "/rpm/a/Foo.rpm".toList)] ∧
    ∃ routes, computeRoutes twinConfig = .ok routes ∧
      redirectedKey twinConfig routes [("/rpm/a/foo.rpm".toList, "/rpm/a/Foo.rpm".toList)] ⟨fun _ => none, fun _ => []⟩
        ⟨"/rpm/a/foo.rpm".toList, "/rpm/a/foo.rpm".toList, []⟩ "/rpm/a/foo.rpm".toList =
        some "httph/x/Foo.rpm".toList ∧
      ¬ DedupKeyAgrees asciiLower twinConfig routes caseDb "/rpm/a/foo.rpm".toList := by
  have hpairs : acceptedPairs asciiLower twinConfig caseDb caseDb.findDuplicateFiles =
      [("/rpm/a/foo.rpm".toList, "/rpm/a/Foo.rpm".toList)] := by decide
  have hused : (computeRoutes twinConfig).toOption.bind (fun routes =>
      redirectedKey twinConfig routes [("/rpm/a/foo.rpm".toList, "/rpm/a/Foo.rpm".toList)] ⟨fun _ => none, fun _ => []⟩
        ⟨"/rpm/a/foo.rpm".toList, "/rpm/a/foo.rpm".toList, []⟩ "/rpm/a/foo.rpm".toList) =
      some "httph/x/Foo.rpm".toList := by decide +kernel
  have hpredicted : (computeRoutes twinConfig).toOption.bind (fun routes =>
      (dedupKeys asciiLower twinConfig caseDb.findDuplicateFiles ⟨routes, twinConfig.nginx.enableDedup⟩
        [("/rpm/a/foo.rpm".toList, "/rpm/a/Foo.rpm".toList)]).toOption.bind
          fun keys => keys.lookup (asciiLower "/rpm/a/foo.rpm".toList)) = some [] := by decide +kernel
  cases h : computeRoutes twinConfig with
  | error e =>
    rw [h, Except.toOption, Option.bind_none] at hused
    exact absurd hused.symm (Option.some_ne_none _)
  | ok routes =>
    rw [h, Except.toOption, Option.bind_some] at hused hpredicted
    refine ⟨hpairs, routes, rfl, hused, ?_⟩
    rintro ⟨keys, key, hkeys, hlookup, hne, -⟩
    rw [hpairs] at hkeys
    rw [hkeys, Except.toOption, Option.bind_some, hlookup] at hpredicted
    exact hne (Option.some.inj hpredicted)

end RepoWatch
