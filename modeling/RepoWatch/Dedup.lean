import RepoWatch.Routing
import RepoWatch.Duplicates
/-!
# Dedup — which redirects the duplicate query may become

`resolveDedupPairs` turns the rows of the duplicate query into local paths, and drops a source that is proposed two
targets or that differs from another source in case only.  `acceptedPairs` then streams the whole catalog over the
proposed paths and keeps a pair only when every owner of either end has shown the same hash.  Python's `str.lower` is the
parameter `lower`; nothing in this module depends on what it does.
-/
namespace RepoWatch

open Lib

/-! ## Pairs of local paths -/

/-- The pair of local paths that a row of the duplicate query proposes. -/
def proposal (config : Config) (d : DuplicateFile) : Option (Str × Str) :=
  match config.repoById d.repoId, config.repoById d.canonical with
  | some duplicateRepo, some canonicalRepo =>
    if duplicateRepo.type = .nix ∨ canonicalRepo.type = .nix then none
    else
      let duplicateUri := packagePath duplicateRepo d.filename
      let canonicalUri := packagePath canonicalRepo d.canonicalFilename
      if duplicateUri = canonicalUri then none else some (duplicateUri, canonicalUri)
  | _, _ => none

/-- `targets.setdefault(duplicate_uri, set()).add(canonical_uri)`. -/
def addTarget (targets : Dict Str (List Str)) (p : Str × Str) : Dict Str (List Str) :=
  targets.set p.1 (((targets.lookup p.1).getD []).insert p.2)

def proposedTargets (config : Config) (rows : List DuplicateFile) : Dict Str (List Str) :=
  (rows.filterMap (proposal config)).foldl addTarget .empty

section Lower
variable (lower : Str → Str)

/-- Another source has the same lowered path. -/
def caseClash (targets : Dict Str (List Str)) (key : Str) : Bool :=
  decide (1 < (targets.keys.filter (fun k => lower k = lower key)).length)

/-- `nginx.render.resolve_dedup_pairs`. -/
def resolveDedupPairs (config : Config) (rows : List DuplicateFile) : List (Str × Str) :=
  let targets := proposedTargets config rows
  targets.rows.filterMap fun (key, values) =>
    match values with
    | [target] => if caseClash lower targets key then none else some (key, target)
    | _ => none

/-! ## Evidence of the owners -/

/-- What the catalog has shown of a path so far: nothing, owners that disagree or have no hash, or one hash. -/
inductive Evidence where
  | unseen
  | unknown
  | hash (h : Str)
  deriving DecidableEq

/-- `content_hash or None`. -/
def Evidence.of : Option Str → Evidence
  | none => .unknown
  | some h => if h = [] then .unknown else .hash h

/-- `previous == content_hash`. -/
def Evidence.is : Evidence → Option Str → Bool
  | .unseen, _ => false
  | .unknown, c => c.isNone
  | .hash h, c => c == some h

def Evidence.see (previous : Evidence) (contentHash : Option Str) : Evidence :=
  if previous = .unseen ∨ previous.is contentHash then .of contentHash else .unknown

/-- One round of the stream over the catalog. -/
def noteOwner (prefixes : Dict Str Str) (hashes : Dict Str Evidence) (row : Str × Str × Option Str) :
    Dict Str Evidence :=
  match prefixes.lookup row.1 with
  | none => hashes
  | some pre =>
    let uri := lower (pre ++ row.2.1)
    match hashes.lookup uri with
    | none => hashes
    | some previous => hashes.set uri (previous.see row.2.2)

def unseenUris (pairs : List (Str × Str)) : Dict Str Evidence :=
  .ofPairs (pairs.flatMap fun p => [(lower p.1, .unseen), (lower p.2, .unseen)])

/-- `{repo.id: package_prefix(repo) + '/' for repo in config.repos}`. -/
def repoPrefixes (config : Config) : Dict Str Str :=
  .ofPairs (config.repos.map fun repo => (repo.id, packagePrefix repo ++ "/".toList))

/-- The owners of both ends have shown one hash. -/
def agree (hashes : Dict Str Evidence) (p : Str × Str) : Bool :=
  match hashes.lookup (lower p.1) with
  | some (.hash h) => hashes.lookup (lower p.2) == some (.hash h)
  | _ => false

/-- `cache.dedup.accepted_pairs`. -/
def acceptedPairs (config : Config) (db : Database) (rows : List DuplicateFile) : List (Str × Str) :=
  if !config.nginx.enableDedup then []
  else
    let pairs := resolveDedupPairs lower config rows
    let hashes := unseenUris lower pairs
    if hashes.rows.isEmpty then []
    else pairs.filter (agree lower (db.iterFileHashes.foldl (noteOwner lower (repoPrefixes config)) hashes))

/-! ## Keys of the redirects -/

/-- `{repo.id: builder.for_repo(repo) for repo in config.repos}`. -/
def boundKeys (config : Config) (builder : CacheKeyBuilder) : Except Error (Dict Str BoundKey) := do
  let bound ← config.repos.mapM fun repo => do return (repo.id, ← builder.forRepo repo)
  return .ofPairs bound

/-- The key of each canonical path. -/
def canonicalKeys (config : Config) (bound : Dict Str BoundKey) (rows : List DuplicateFile) : Dict Str Str :=
  .ofPairs (rows.filterMap fun d => (config.repoById d.canonical).bind fun repo =>
    (bound.lookup d.canonical).map fun k => (packagePath repo d.canonicalFilename, k.key d.canonicalFilename))

/-- The loop `while target.lower() in rewrites and target.lower() not in seen`. -/
def follow (rewrites : Dict Str Str) (seen : List Str) (target : Str) : List Str × Str :=
  if _hseen : lower target ∈ seen then (seen, target)
  else match _hnext : rewrites.lookup (lower target) with
    | none => (seen, target)
    | some next => follow rewrites (lower target :: seen) next
termination_by (rewrites.keys.filter fun k => k ∉ seen).length
decreasing_by
  have hkey : lower target ∈ rewrites.keys := by
    by_contra hn
    rw [Dict.lookup_eq_none_iff.2 hn] at _hnext
    cases _hnext
  have hsub : (rewrites.keys.filter fun k => k ∉ lower target :: seen).Sublist
      (rewrites.keys.filter fun k => k ∉ seen) :=
    List.monotone_filter_right _ fun k hk => by simp at hk ⊢; exact hk.2
  refine hsub.length_le.lt_of_ne fun he => ?_
  have hmem : lower target ∈ rewrites.keys.filter fun k => k ∉ seen := by simp [hkey, _hseen]
  rw [← hsub.eq_of_length he] at hmem
  simp at hmem

/-- `cache.dedup.dedup_keys`. -/
def dedupKeys (config : Config) (rows : List DuplicateFile) (builder : CacheKeyBuilder) (pairs : List (Str × Str)) :
    Except Error (Dict Str Str) :=
  if !config.nginx.enableDedup then .ok .empty
  else do
    let rewrites : Dict Str Str := .ofPairs (pairs.map fun p => (lower p.1, p.2))
    let bound ← boundKeys config builder
    let targets := canonicalKeys config bound rows
    return .ofPairs (rewrites.rows.map fun (source, target) =>
      let (seen, target) := follow lower rewrites [source] target
      (source, if lower target ∈ seen then [] else (targets.lookup target).getD []))

end Lower

theorem boundKeys_ok {config : Config} {builder : CacheKeyBuilder} (h : builder.routes.Accepted config) :
    ∃ bound, boundKeys config builder = .ok bound := by
  obtain ⟨pairs, hpairs⟩ := mapM_ok (f := fun repo : RepoConfig => do return (repo.id, ← builder.forRepo repo))
    (l := config.repos) fun repo hr => by
      obtain ⟨k, -, hk, -⟩ := CacheKeyBuilder.forRepo_ok h hr
      exact ⟨(repo.id, k), by rw [hk]; rfl⟩
  exact ⟨.ofPairs pairs, bind_eq_ok.2 ⟨pairs, hpairs, rfl⟩⟩

theorem follow_of_mem {lower : Str → Str} {rewrites : Dict Str Str} {seen : List Str} {target : Str}
    (h : lower target ∈ seen) : follow lower rewrites seen target = (seen, target) := by
  rw [follow, dif_pos h]

theorem follow_of_none {lower : Str → Str} {rewrites : Dict Str Str} {seen : List Str} {target : Str}
    (h : rewrites.lookup (lower target) = none) : follow lower rewrites seen target = (seen, target) := by
  rw [follow]
  split
  · rfl
  · split
    · rfl
    · rename_i hs
      rw [h] at hs
      cases hs

theorem follow_of_some {lower : Str → Str} {rewrites : Dict Str Str} {seen : List Str} {target next : Str}
    (hseen : lower target ∉ seen) (h : rewrites.lookup (lower target) = some next) :
    follow lower rewrites seen target = follow lower rewrites (lower target :: seen) next := by
  rw [follow, dif_neg hseen]
  split
  · rename_i hn
    rw [h] at hn
    cases hn
  · rename_i hs
    rw [h, Option.some.injEq] at hs
    rw [hs]

/-- **The bound keys** answer for the configured repositories, with the key function of the builder. -/
theorem boundKeys_lookup {config : Config} {builder : CacheKeyBuilder} {bound : Dict Str BoundKey}
    (h : boundKeys config builder = .ok bound) {id : Str} {k : BoundKey} :
    bound.lookup id = some k ↔ ∃ repo, config.repoById id = some repo ∧ builder.forRepo repo = .ok k := by
  unfold boundKeys at h
  obtain ⟨pairs, hpairs, h⟩ := bind_eq_ok.1 h
  cases h
  obtain ⟨hsome, hall⟩ := mem_of_mapM_eq_ok hpairs
  have hpair : ∀ p ∈ pairs, ∃ repo, config.repoById p.1 = some repo ∧ builder.forRepo repo = .ok p.2 := fun p hp => by
    obtain ⟨repo, hrepo, hp⟩ := hsome p hp
    obtain ⟨k, hk, hp⟩ := bind_eq_ok.1 hp
    cases hp
    exact ⟨repo, Config.repoById_of_mem hrepo, hk⟩
  constructor
  · exact fun hl => hpair _ (Dict.mem_of_lookup_ofPairs hl)
  · rintro ⟨repo, hrepo, hk⟩
    obtain ⟨hmem, rfl⟩ := Config.repoById_eq_some hrepo
    obtain ⟨p, hp, hpk⟩ := hall repo hmem
    obtain ⟨k', hk', hpk⟩ := bind_eq_ok.1 hpk
    cases hpk
    refine Dict.lookup_ofPairs_eq_some (List.mem_map_of_mem hp) fun q hq hqk => ?_
    obtain ⟨repo', hrepo', hkq⟩ := hpair q hq
    rw [hqk, hrepo] at hrepo'
    cases hrepo'
    rw [hk] at hkq
    exact (Except.ok.inj hkq).symm

/-! ## The pairs that are resolved -/

/-- Each source has its proposed targets, once each. -/
def TargetsOf (pairs : List (Str × Str)) (targets : Dict Str (List Str)) : Prop :=
  ∀ k, (∀ t, t ∈ (targets.lookup k).getD [] ↔ (k, t) ∈ pairs) ∧ ((targets.lookup k).getD []).Nodup ∧
    targets.lookup k ≠ some []

theorem addTarget_targetsOf {pairs : List (Str × Str)} {targets : Dict Str (List Str)} (h : TargetsOf pairs targets)
    (p : Str × Str) : TargetsOf (pairs ++ [p]) (addTarget targets p) := by
  intro k
  obtain ⟨hmem, hnd, hne⟩ := h k
  unfold addTarget
  rw [Dict.lookup_set]
  by_cases hk : k = p.1
  · subst hk
    rw [if_pos rfl]
    refine ⟨fun t => ?_, hnd.insert, fun e => ?_⟩
    · rw [Option.getD_some, List.mem_insert_iff, hmem]
      simp [or_comm, Prod.ext_iff]
    · exact List.ne_nil_of_mem List.mem_insert_self (Option.some.inj e)
  · rw [if_neg hk]
    have hnp : ∀ t, (k, t) ≠ p := fun t e => hk (congrArg Prod.fst e)
    exact ⟨fun t => by simp [hmem, hnp], hnd, hne⟩

theorem proposedTargets_targetsOf (config : Config) (rows : List DuplicateFile) :
    TargetsOf (rows.filterMap (proposal config)) (proposedTargets config rows) :=
  foldl_inv TargetsOf (fun k => ⟨fun t => by simp [Dict.lookup], by simp [Dict.lookup], by simp [Dict.lookup]⟩)
    (fun _ p _ h => addTarget_targetsOf h p) _

theorem mem_keys_proposedTargets {config : Config} {rows : List DuplicateFile} {k : Str} :
    k ∈ (proposedTargets config rows).keys ↔ ∃ t, (k, t) ∈ rows.filterMap (proposal config) := by
  obtain ⟨hmem, -, hne⟩ := proposedTargets_targetsOf config rows k
  rw [← not_iff_not, ← Dict.lookup_eq_none_iff]
  constructor
  · rintro hl ⟨t, ht⟩
    rw [← hmem, hl] at ht
    cases ht
  · intro hn
    cases hl : (proposedTargets config rows).lookup k with
    | none => rfl
    | some ts =>
      cases ts with
      | nil => exact absurd hl hne
      | cons t ts => exact absurd ⟨t, (hmem t).1 (by simp [hl])⟩ hn

theorem caseClash_eq_false {lower : Str → Str} {targets : Dict Str (List Str)} {key : Str} (hk : key ∈ targets.keys) :
    caseClash lower targets key = false ↔ ∀ k ∈ targets.keys, lower k = lower key → k = key := by
  have hnd : (targets.keys.filter (fun k => lower k = lower key)).Nodup := targets.keysNodup.filter _
  have hmem : ∀ k, k ∈ targets.keys.filter (fun k => lower k = lower key) ↔ k ∈ targets.keys ∧ lower k = lower key := by
    simp
  unfold caseClash
  rw [decide_eq_false_iff_not, not_lt]
  generalize targets.keys.filter (fun k => lower k = lower key) = l at hnd hmem ⊢
  have hkl : key ∈ l := (hmem key).2 ⟨hk, rfl⟩
  constructor
  · intro hle k hkm hlow
    have hkl' : k ∈ l := (hmem k).2 ⟨hkm, hlow⟩
    match l, hle with
    | [x], _ => rw [List.mem_singleton.1 hkl, List.mem_singleton.1 hkl']
  · intro hall
    have hone : ∀ k ∈ l, k = key := fun k hkm => hall k ((hmem k).1 hkm).1 ((hmem k).1 hkm).2
    match l with
    | [] => simp
    | [x] => simp
    | x :: y :: l =>
      have hx := hone x (by simp)
      have hy := hone y (by simp)
      simp [hx, hy] at hnd

/-- **The pairs that are resolved**: proposed, with one target proposed for the source and no source like it. -/
theorem mem_resolveDedupPairs {lower : Str → Str} {config : Config} {rows : List DuplicateFile} {s t : Str} :
    (s, t) ∈ resolveDedupPairs lower config rows ↔ (s, t) ∈ rows.filterMap (proposal config) ∧
      (∀ t', (s, t') ∈ rows.filterMap (proposal config) → t' = t) ∧
      ∀ p ∈ rows.filterMap (proposal config), lower p.1 = lower s → p.1 = s := by
  obtain ⟨hmem, hnd, -⟩ := proposedTargets_targetsOf config rows s
  have hclash : s ∈ (proposedTargets config rows).keys → (caseClash lower (proposedTargets config rows) s = false ↔
      ∀ p ∈ rows.filterMap (proposal config), lower p.1 = lower s → p.1 = s) := fun hs => by
    rw [caseClash_eq_false hs]
    exact ⟨fun h p hp => h p.1 (mem_keys_proposedTargets.2 ⟨p.2, hp⟩), fun h k hk hl => by
      obtain ⟨t', ht'⟩ := mem_keys_proposedTargets.1 hk
      exact h _ ht' hl⟩
  unfold resolveDedupPairs
  rw [List.mem_filterMap]
  constructor
  · rintro ⟨⟨key, values⟩, hrow, h⟩
    dsimp only at h
    split at h
    · rename_i target
      split at h
      · cases h
      · rename_i hc
        cases h
        have hl := Dict.lookup_eq_some_iff.2 hrow
        rw [hl] at hmem
        simp only [Option.getD_some, List.mem_singleton] at hmem
        exact ⟨(hmem t).1 rfl, fun t' ht' => (hmem t').2 ht',
          (hclash (List.mem_map_of_mem hrow)).1 (by simpa using hc)⟩
    · cases h
  · rintro ⟨hp, huniq, hcase⟩
    have hs : s ∈ (proposedTargets config rows).keys := mem_keys_proposedTargets.2 ⟨t, hp⟩
    obtain ⟨⟨key, values⟩, hrow, rfl⟩ := List.mem_map.1 hs
    have hl := Dict.lookup_eq_some_iff.2 hrow
    rw [hl, Option.getD_some] at hmem hnd
    have hone : values = [t] := by
      have hall : ∀ t' ∈ values, t' = t := fun t' ht' => huniq t' ((hmem t').1 ht')
      match values with
      | [] => exact absurd ((hmem t).2 hp) (by simp)
      | [x] => rw [hall x (by simp)]
      | x :: y :: l => simp [hall x (by simp), hall y (by simp)] at hnd
    refine ⟨(key, values), hrow, ?_⟩
    dsimp only
    rw [hone]
    dsimp only
    rw [if_neg (by simpa using (hclash hs).2 hcase)]

/-! ## The evidence of a whole stream -/

/-- What the hashes of a path's owners come to, in the order of the stream. -/
def Evidence.ofAll (hashes : List (Option Str)) : Evidence := hashes.foldl see .unseen

theorem Evidence.of_eq_hash {c : Option Str} {h : Str} : Evidence.of c = .hash h ↔ c = some h ∧ h ≠ [] := by
  cases c with
  | none => simp [Evidence.of]
  | some g =>
    by_cases hg : g = []
    · simp [Evidence.of, hg, eq_comm]
    · simp only [Evidence.of, if_neg hg, hash.injEq, Option.some.injEq]
      exact ⟨fun e => ⟨e, e ▸ hg⟩, fun e => e.1⟩

theorem Evidence.of_ne_unseen (c : Option Str) : Evidence.of c ≠ .unseen := by
  unfold Evidence.of
  split
  · simp
  · split <;> simp

/-- **One hash at the end is one hash all along**, whatever the order of the owners. -/
theorem Evidence.ofAll_spec (hashes : List (Option Str)) : (ofAll hashes = .unseen ↔ hashes = []) ∧
    ∀ h, ofAll hashes = .hash h ↔ hashes ≠ [] ∧ (∀ c ∈ hashes, c = some h) ∧ h ≠ [] := by
  refine foldl_inv (z := .unseen) (fun pre e => (e = .unseen ↔ pre = []) ∧
    ∀ h, e = Evidence.hash h ↔ pre ≠ [] ∧ (∀ c ∈ pre, c = some h) ∧ h ≠ []) (by simp) (fun pre c e ih => ?_) hashes
  obtain ⟨hunseen, hhash⟩ := ih
  have hne : pre ++ [c] ≠ [] := by simp
  cases e with
  | unseen =>
    obtain rfl := hunseen.1 rfl
    simp [see, of_eq_hash, of_ne_unseen]
  | unknown =>
    have hno : ∀ h, pre ≠ [] ∧ (∀ c ∈ pre, c = some h) ∧ h ≠ [] → False := fun h hp => by
      have := (hhash h).2 hp
      cases this
    have hpre : pre ≠ [] := fun e => by simp [e] at hunseen
    have hsee : see .unknown c = .unknown := by cases c <;> rfl
    rw [hsee]
    refine ⟨by simp, fun h => ⟨fun e => by (cases e), fun ⟨_, hall, hh⟩ => (hno h ⟨hpre, fun x hx => hall x ?_, hh⟩).elim⟩⟩
    simp [hx]
  | hash g =>
    obtain ⟨hpre, hall, hg⟩ := (hhash g).1 rfl
    by_cases hc : c = some g
    · have hsee : see (.hash g) c = .hash g := by subst hc; simp [see, is, of, hg]
      rw [hsee]
      refine ⟨by simp, fun h => ⟨fun e => ?_, fun ⟨_, hall', hh⟩ => ?_⟩⟩
      · cases e
        exact ⟨hne, fun x hx => by
          rcases List.mem_append.1 hx with hx | hx
          · exact hall x hx
          · rw [List.mem_singleton.1 hx, hc], hg⟩
      · have := hall' c (by simp)
        rw [hc, Option.some.injEq] at this
        rw [this]
    · have hsee : see (.hash g) c = .unknown := by simp [see, is, hc]
      rw [hsee]
      refine ⟨by simp, fun h => ⟨fun e => by (cases e), fun ⟨_, hall', hh⟩ => ?_⟩⟩
      obtain ⟨x, hx⟩ := List.exists_mem_of_ne_nil pre hpre
      have h1 := hall x hx
      have h2 := hall' x (by simp [hx])
      rw [h1, Option.some.injEq] at h2
      exact absurd (h2 ▸ hall' c (by simp)) hc

section Stream
variable {lower : Str → Str}

/-- A row of the stream whose repository is configured and whose local path lowers to `uri`. -/
def owns (lower : Str → Str) (prefixes : Dict Str Str) (uri : Str) (row : Str × Str × Option Str) : Bool :=
  (prefixes.lookup row.1).any fun pre => lower (pre ++ row.2.1) == uri

/-- The hashes that the owners of a path show, in the order of the stream. -/
def ownerHashes (lower : Str → Str) (prefixes : Dict Str Str) (uri : Str) (rows : List (Str × Str × Option Str)) :
    List (Option Str) :=
  (rows.filter (owns lower prefixes uri)).map fun row => row.2.2

theorem noteOwner_lookup (prefixes : Dict Str Str) (hashes : Dict Str Evidence) (row : Str × Str × Option Str) (u : Str) :
    (noteOwner lower prefixes hashes row).lookup u =
      if owns lower prefixes u row then (hashes.lookup u).map (fun e => e.see row.2.2) else hashes.lookup u := by
  unfold noteOwner owns
  cases hp : prefixes.lookup row.1 with
  | none => simp
  | some pre =>
    dsimp only
    rw [Option.any_some]
    cases hl : hashes.lookup (lower (pre ++ row.2.1)) with
    | none =>
      by_cases hu : lower (pre ++ row.2.1) = u
      · subst hu; simp [hl]
      · simp [hu]
    | some previous =>
      dsimp only
      rw [Dict.lookup_set]
      by_cases hu : lower (pre ++ row.2.1) = u
      · subst hu; simp [hl]
      · simp [hu, Ne.symm hu]

/-- **The evidence after the stream** is what the owners' hashes come to. -/
theorem foldl_noteOwner_lookup (prefixes : Dict Str Str) {hashes : Dict Str Evidence}
    (h₀ : ∀ u e, hashes.lookup u = some e → e = .unseen) (rows : List (Str × Str × Option Str)) (u : Str) :
    (rows.foldl (noteOwner lower prefixes) hashes).lookup u =
      (hashes.lookup u).map fun _ => Evidence.ofAll (ownerHashes lower prefixes u rows) := by
  refine foldl_inv (fun pre (hs : Dict Str Evidence) => hs.lookup u =
    (hashes.lookup u).map fun _ => Evidence.ofAll (ownerHashes lower prefixes u pre)) ?_ (fun pre row hs ih => ?_) rows
  · cases hl : hashes.lookup u with
    | none => rfl
    | some e => rw [h₀ u e hl]; rfl
  · rw [noteOwner_lookup, ih]
    unfold ownerHashes Evidence.ofAll
    rw [List.filter_append, List.map_append, List.foldl_append, List.filter_singleton]
    cases hashes.lookup u <;> cases owns lower prefixes u row <;> simp

end Stream

theorem repoPrefixes_lookup (config : Config) (id : Str) :
    (repoPrefixes config).lookup id = (config.repoById id).map fun repo => packagePrefix repo ++ "/".toList := by
  unfold repoPrefixes
  cases h : config.repoById id with
  | some repo =>
    obtain ⟨hr, rfl⟩ := Config.repoById_eq_some h
    refine Dict.lookup_ofPairs_eq_some (by simpa using ⟨repo, hr, rfl⟩) fun p hp hpk => ?_
    obtain ⟨r, hrm, rfl⟩ := List.mem_map.1 hp
    have := Config.repoById_of_mem hrm
    rw [show r.id = repo.id from hpk, h] at this
    rw [Option.some.inj this]
  | none =>
    refine Dict.lookup_ofPairs_eq_none fun hm => ?_
    obtain ⟨p, hp, hpk⟩ := List.mem_map.1 hm
    obtain ⟨r, hrm, rfl⟩ := List.mem_map.1 hp
    have := Config.repoById_of_mem hrm
    rw [show r.id = id from hpk, h] at this
    cases this

theorem unseenUris_lookup {lower : Str → Str} {pairs : List (Str × Str)} {u : Str} {e : Evidence}
    (h : (unseenUris lower pairs).lookup u = some e) : e = .unseen := by
  by_cases hm : u ∈ (pairs.flatMap fun p => [(lower p.1, Evidence.unseen), (lower p.2, Evidence.unseen)]).map Prod.fst
  · have : (unseenUris lower pairs).lookup u = some .unseen := Dict.lookup_ofPairs_eq_some hm (by simp; grind)
    rw [h, Option.some.injEq] at this
    exact this
  · rw [unseenUris, Dict.lookup_ofPairs_eq_none hm] at h
    cases h

/-- The rows of configured repositories whose local path is `uri` up to case. -/
def Database.OwnedBy (lower : Str → Str) (config : Config) (db : Database) (uri : Str) (row : PackageRow) : Prop :=
  row ∈ db.repoPackages.rows ∧
    ∃ repo, config.repoById row.repoId = some repo ∧ lower (packagePath repo row.filename) = lower uri

theorem mem_ownerHashes {lower : Str → Str} {config : Config} {db : Database} {uri : Str} {c : Option Str} :
    c ∈ ownerHashes lower (repoPrefixes config) (lower uri) db.iterFileHashes ↔
      ∃ row, db.OwnedBy lower config uri row ∧ row.contentHash = c := by
  simp only [ownerHashes, Database.iterFileHashes, owns, repoPrefixes_lookup, Database.OwnedBy, packagePath,
    List.mem_map, List.mem_filter, Option.any_map, Option.any_eq_true]
  constructor
  · rintro ⟨-, ⟨⟨row, hrow, rfl⟩, repo, hrepo, hu⟩, rfl⟩
    exact ⟨row, ⟨hrow, repo, hrepo, by simpa using hu⟩, rfl⟩
  · rintro ⟨row, ⟨hrow, repo, hrepo, hu⟩, rfl⟩
    exact ⟨_, ⟨⟨row, hrow, rfl⟩, repo, hrepo, by simpa using hu⟩, rfl⟩

theorem agree_iff {lower : Str → Str} {hashes : Dict Str Evidence} {p : Str × Str} : agree lower hashes p = true ↔
    ∃ h, hashes.lookup (lower p.1) = some (.hash h) ∧ hashes.lookup (lower p.2) = some (.hash h) := by
  unfold agree
  split
  · rename_i h hl
    rw [beq_iff_eq, hl]
    simp
  · rename_i hno
    constructor
    · intro he
      cases he
    · rintro ⟨h, hl, -⟩
      exact absurd hl (hno h)

/-- **The pairs that are accepted**: resolved, and the owners of both ends have one hash in common and no other. -/
theorem mem_acceptedPairs {lower : Str → Str} {config : Config} {db : Database} {rows : List DuplicateFile} {s t : Str}
    (h : (s, t) ∈ acceptedPairs lower config db rows) : config.nginx.enableDedup = true ∧
      (s, t) ∈ resolveDedupPairs lower config rows ∧ ∃ hash, hash ≠ [] ∧ ∀ uri, uri = s ∨ uri = t →
        (∃ row, db.OwnedBy lower config uri row) ∧ ∀ row, db.OwnedBy lower config uri row → row.contentHash = some hash := by
  unfold acceptedPairs at h
  dsimp only at h
  split at h
  · cases h
  rename_i hen
  split at h
  · cases h
  obtain ⟨hp, hagree⟩ := List.mem_filter.1 h
  refine ⟨by simpa using hen, hp, ?_⟩
  have hev : ∀ uri hash, (db.iterFileHashes.foldl (noteOwner lower (repoPrefixes config))
      (unseenUris lower (resolveDedupPairs lower config rows))).lookup (lower uri) = some (.hash hash) →
      hash ≠ [] ∧ (∃ row, db.OwnedBy lower config uri row) ∧
        ∀ row, db.OwnedBy lower config uri row → row.contentHash = some hash := fun uri hash hl => by
    rw [foldl_noteOwner_lookup _ (fun _ _ => unseenUris_lookup), Option.map_eq_some_iff] at hl
    obtain ⟨-, -, hl⟩ := hl
    obtain ⟨hne, hall, hh⟩ := ((Evidence.ofAll_spec _).2 hash).1 hl
    obtain ⟨c, hc⟩ := List.exists_mem_of_ne_nil _ hne
    obtain ⟨row, hrow, -⟩ := mem_ownerHashes.1 hc
    exact ⟨hh, ⟨row, hrow⟩, fun row hrow => hall _ (mem_ownerHashes.2 ⟨row, hrow, rfl⟩)⟩
  obtain ⟨hash, hs, ht⟩ := agree_iff.1 hagree
  refine ⟨hash, (hev s hash hs).1, ?_⟩
  rintro uri (rfl | rfl)
  · exact (hev uri hash hs).2
  · exact (hev uri hash ht).2

/-- **The accepted pairs** depend on what the catalog shows only. -/
theorem acceptedPairs_congr {lower : Str → Str} {config : Config} {db db' : Database} (h : db.SameFiles db')
    (rows : List DuplicateFile) : acceptedPairs lower config db rows = acceptedPairs lower config db' rows := by
  have howners : ∀ u c, c ∈ ownerHashes lower (repoPrefixes config) u db.iterFileHashes ↔
      c ∈ ownerHashes lower (repoPrefixes config) u db'.iterFileHashes := fun u c => by
    unfold Database.SameFiles at h
    unfold ownerHashes
    simp only [List.mem_map, List.mem_filter, h]
  have hevidence : ∀ u g, Evidence.ofAll (ownerHashes lower (repoPrefixes config) u db.iterFileHashes) = .hash g ↔
      Evidence.ofAll (ownerHashes lower (repoPrefixes config) u db'.iterFileHashes) = .hash g := fun u g => by
    rw [(Evidence.ofAll_spec _).2, (Evidence.ofAll_spec _).2]
    have hnil : ∀ l : List (Option Str), l ≠ [] ↔ ∃ c, c ∈ l := fun l =>
      ⟨List.exists_mem_of_ne_nil l, fun ⟨_, hc⟩ => List.ne_nil_of_mem hc⟩
    simp only [hnil, howners]
  have hlookup : ∀ pairs u g, ((db.iterFileHashes.foldl (noteOwner lower (repoPrefixes config))
      (unseenUris lower pairs)).lookup u = some (.hash g) ↔ (db'.iterFileHashes.foldl (noteOwner lower (repoPrefixes config))
      (unseenUris lower pairs)).lookup u = some (.hash g)) := fun pairs u g => by
    have h₀ : ∀ u e, (unseenUris lower pairs).lookup u = some e → e = .unseen := fun u e => unseenUris_lookup
    rw [foldl_noteOwner_lookup _ h₀, foldl_noteOwner_lookup _ h₀]
    simp only [Option.map_eq_some_iff, hevidence]
  unfold acceptedPairs
  dsimp only
  congr 2
  refine List.filter_congr fun p _ => ?_
  rw [Bool.eq_iff_iff, agree_iff, agree_iff]
  simp only [hlookup]

/-- **Redirects never change bytes**: the catalog rows of configured repositories at either end of an accepted pair, up to
case, all have one non-empty hash, and each end has such a row. -/
theorem acceptedPairs_one_hash (lower : Str → Str) (config : Config) (db : Database) {source target : Str}
    (h : (source, target) ∈ acceptedPairs lower config db db.findDuplicateFiles) : ∃ hash : Str, hash ≠ [] ∧
      (∀ row ∈ db.repoPackages.rows, ∀ repo, config.repoById row.repoId = some repo →
        (lower (packagePath repo row.filename) = lower source ∨ lower (packagePath repo row.filename) = lower target) →
        row.contentHash = some hash) ∧
      (∃ row ∈ db.repoPackages.rows, ∃ repo, config.repoById row.repoId = some repo ∧
        lower (packagePath repo row.filename) = lower source) ∧
      ∃ row ∈ db.repoPackages.rows, ∃ repo, config.repoById row.repoId = some repo ∧
        lower (packagePath repo row.filename) = lower target := by
  obtain ⟨-, -, hash, hh, hown⟩ := mem_acceptedPairs h
  obtain ⟨⟨rs, hrs, reps, hreps, hls⟩, hs⟩ := hown source (Or.inl rfl)
  obtain ⟨⟨rt, hrt, rept, hrept, hlt⟩, ht⟩ := hown target (Or.inr rfl)
  refine ⟨hash, hh, fun row hrow repo hrepo hl => ?_, ⟨rs, hrs, reps, hreps, hls⟩, ⟨rt, hrt, rept, hrept, hlt⟩⟩
  rcases hl with hl | hl
  · exact hs row ⟨hrow, repo, hrepo, hl⟩
  · exact ht row ⟨hrow, repo, hrepo, hl⟩

def twinConfig : Config where
  checkInterval := 3600
  cacheBaseUrl := "http://127.0.0.1:8080".toList
  repos := [plainRepo .dnf "a" "http://h/x", plainRepo .dnf "b" "http://h/y"]
  nginx := { enableDedup := true }
  idsNodup := by decide
  versionOk := by decide

def twinDb : Database where
  repoState := .empty
  repoPackages := Table.empty.upsertAll [⟨"b".toList, "q-1".toList, none, "q.rpm".toList, some "f0".toList⟩,
    ⟨"a".toList, "p-1".toList, none, "p.rpm".toList, some "f0".toList⟩]
  repoEvents := []
  pendingReplacements := .empty
  warmedPackages := .empty
  nixArtifacts := .empty

/-- The file of `b` is redirected to the file of `a`, and both have the hash `f0`. -/
theorem acceptedPairs_one_hash_twins : ∃ hash : Str, hash ≠ [] ∧
    (∀ row ∈ twinDb.repoPackages.rows, ∀ repo, twinConfig.repoById row.repoId = some repo →
      (asciiLower (packagePath repo row.filename) = asciiLower "/rpm/b/q.rpm".toList ∨
        asciiLower (packagePath repo row.filename) = asciiLower "/rpm/a/p.rpm".toList) → row.contentHash = some hash) ∧
    (∃ row ∈ twinDb.repoPackages.rows, ∃ repo, twinConfig.repoById row.repoId = some repo ∧
      asciiLower (packagePath repo row.filename) = asciiLower "/rpm/b/q.rpm".toList) ∧
    ∃ row ∈ twinDb.repoPackages.rows, ∃ repo, twinConfig.repoById row.repoId = some repo ∧
      asciiLower (packagePath repo row.filename) = asciiLower "/rpm/a/p.rpm".toList :=
  acceptedPairs_one_hash asciiLower twinConfig twinDb (by decide)

end RepoWatch
