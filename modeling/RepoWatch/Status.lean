import RepoWatch.Config
import RepoWatch.Lib.Loop
import RepoWatch.Pagination
import RepoWatch.Repositories
/-!
# Status — how fresh the catalogs are

The status of a repository is made of its own check state and replacements, although the payload is built from those of
all repositories (`statusPayload_eq`).
-/
namespace RepoWatch

open Lib

/-- An entry of `get_repo_summaries`. -/
structure RepoSummary where
  lastCheck : Option Str
  changedAt : Option Str
  packageCount : Option Nat
  keyExpiresAt : Option Str
  keyExpiryKnown : Bool
  deriving DecidableEq

def RepoState.summary (s : RepoState) : RepoSummary :=
  ⟨if s.lastCheck = [] then none else some s.lastCheck, s.changedAt, s.packageCount, s.keyExpiresAt, s.keyExpiryKnown⟩

namespace Database
variable (db : Database)

/-- `RepositoriesStore.get_repo_summaries`, without the warmed counts. -/
def getRepoSummaries : Dict Str RepoSummary := .ofPairs (db.repoState.rows.map fun s => (s.repoId, s.summary))

/-- `CacheStore.get_pending_replacement_counts`. -/
def getPendingReplacementCounts : Dict Str Nat :=
  .ofPairs ((db.pendingReplacements.rows.map PendingRow.repoId).dedup.map fun id =>
    (id, db.pendingReplacements.rows.countP fun q => q.repoId = id))

end Database

/-! ## Staleness -/

def healthzStaleMultiplier : Int := 3

/-- An entry of `_repo_staleness`. -/
structure StaleRepo where
  repoId : Str
  lastCheck : Option Str
  ageSeconds : Option Int
  checkInterval : Int
  reason : Option Str
  deriving DecidableEq

section
variable (fromisoformat : Str → Option Int) (now : Int) (config : Config) (summaries : Dict Str RepoSummary)

/-- What `_repo_staleness` finds for one repository, in microseconds of the clock; `none` where the time does not parse. -/
def staleRepo (repo : RepoConfig) : Option (Option StaleRepo) :=
  let interval := config.effectiveCheckInterval repo
  match (summaries.lookup repo.id).bind RepoSummary.lastCheck with
  | none => some (some ⟨repo.id, none, none, interval, some "never_checked".toList⟩)
  | some lastCheck => (fromisoformat lastCheck).map fun checked =>
      let age := now - checked
      if age > interval * healthzStaleMultiplier * 1000000 then
        some ⟨repo.id, some lastCheck, some (age.tdiv 1000000), interval, none⟩
      else none

/-- `_repo_staleness`. -/
def repoStaleness : Option (List StaleRepo) :=
  (config.repos.mapM (staleRepo fromisoformat now config summaries)).map fun found => found.filterMap id

/-- One value of `status_payload`. -/
def statusEntry (summary : Option RepoSummary) (stale : Bool) (pending : Nat) : Json :=
  let lastCheck := summary.bind RepoSummary.lastCheck
  .object [("last_check".toList, .ofOption lastCheck), ("changed_at".toList, .ofOption (summary.bind RepoSummary.changedAt)),
    ("stale".toList, .bool (lastCheck.isNone || stale)), ("pending_replacements".toList, .int pending)]

end

def errorPayload (message : Str) : Json := .object [("error".toList, .string message)]

/-- `status_payload`, for a configuration that is loaded; `none` where it raises. -/
def statusPayload (fromisoformat : Str → Option Int) (now : Int) (config : Config) (db : Database) (repoId : Option Str) :
    Option (Nat × Json) :=
  match repoId.filter fun id => (config.repoById id).isNone with
  | some id => some (404, errorPayload ("unknown repo_id: ".toList ++ id))
  | none => do
    let summaries := db.getRepoSummaries
    let pending := db.getPendingReplacementCounts
    let stale ← repoStaleness fromisoformat now config summaries
    let staleIds := stale.map StaleRepo.repoId
    let result : Dict Str Json := .ofPairs ((config.repos.filter fun repo => repoId.all fun id => decide (repo.id = id)).map
      fun repo => (repo.id, statusEntry (summaries.lookup repo.id) (staleIds.contains repo.id) ((pending.lookup repo.id).getD 0)))
    match repoId with
    | none => some (200, .object result.rows)
    | some id => (result.lookup id).map fun entry => (200, entry)

/-- `healthz_payload`, up to the list of the stale repositories: its status; a configuration that does not load is not
ready. -/
def healthzStatus (fromisoformat : Str → Option Int) (now : Int) (config : Option Config) (db : Database) : Option Nat :=
  match config with
  | none => some 503
  | some config => (repoStaleness fromisoformat now config db.getRepoSummaries).map fun stale =>
      if stale = [] then 200 else 503

/-! ## What a status depends on -/

namespace Database
variable (db : Database)

theorem lookup_getRepoSummaries (id : Str) : db.getRepoSummaries.lookup id = (db.repoState.get id).map RepoState.summary := by
  have hkeys : ((db.repoState.rows.map fun s => (s.repoId, s.summary)).map Prod.fst).Nodup := by
    rw [List.map_map]
    exact db.repoState.keysNodup
  refine Option.ext fun summary => ?_
  unfold getRepoSummaries
  rw [Dict.lookup_ofPairs_iff hkeys, Option.map_eq_some_iff, List.mem_map]
  constructor
  · rintro ⟨s, hs, heq⟩
    obtain ⟨rfl, rfl⟩ := Prod.mk.inj heq
    exact ⟨s, Table.get_of_mem hs, rfl⟩
  · rintro ⟨s, hs, rfl⟩
    have hid : s.repoId = id := Table.key_of_get hs
    exact ⟨s, Table.mem_of_get hs, by rw [hid]⟩

theorem lookup_getPendingReplacementCounts (id : Str) : (db.getPendingReplacementCounts.lookup id).getD 0 =
    db.pendingReplacements.rows.countP fun q => q.repoId = id := by
  unfold getPendingReplacementCounts
  set ids := (db.pendingReplacements.rows.map PendingRow.repoId).dedup with hids
  have hkeys : ((ids.map fun id => (id, db.pendingReplacements.rows.countP fun q => q.repoId = id)).map Prod.fst).Nodup := by
    rw [List.map_map]
    simpa [Function.comp_def] using List.nodup_dedup (db.pendingReplacements.rows.map PendingRow.repoId)
  by_cases hid : id ∈ ids
  · rw [(Dict.lookup_ofPairs_iff hkeys).2 (List.mem_map.2 ⟨id, hid, rfl⟩)]
    rfl
  · rw [Dict.lookup_ofPairs_eq_none (by simpa using hid)]
    symm
    rw [Option.getD_none, List.countP_eq_zero]
    intro q hq heq
    exact hid (List.mem_dedup.2 (List.mem_map.2 ⟨q, hq, by simpa using heq⟩))

end Database

/-- Every time that is stored is the text of a time. -/
def TimesOk (fromisoformat : Str → Option Int) (db : Database) : Prop :=
  ∀ s ∈ db.repoState.rows, s.lastCheck ≠ [] → (fromisoformat s.lastCheck).isSome = true

section
variable (fromisoformat : Str → Option Int) (now : Int)

/-- The status of a repository by its own rows. -/
def ownStatus (config : Config) (db : Database) (repo : RepoConfig) : Json :=
  statusEntry (db.getRepoSummaries.lookup repo.id)
    ((staleRepo fromisoformat now config db.getRepoSummaries repo).join.isSome)
    (db.pendingReplacements.rows.countP fun q => q.repoId = repo.id)

variable {fromisoformat now} {config : Config} {db : Database}

theorem repoId_of_staleRepo {summaries : Dict Str RepoSummary} {repo : RepoConfig} {stale : StaleRepo}
    (h : staleRepo fromisoformat now config summaries repo = some (some stale)) : stale.repoId = repo.id := by
  unfold staleRepo at h
  dsimp only at h
  split at h
  · cases h
    rfl
  · obtain ⟨checked, -, h⟩ := Option.map_eq_some_iff.1 h
    obtain ⟨-, h⟩ := Option.ite_none_right_eq_some.1 h
    cases h
    rfl

theorem staleRepo_isSome (htimes : TimesOk fromisoformat db) (repo : RepoConfig) :
    (staleRepo fromisoformat now config db.getRepoSummaries repo).isSome = true := by
  unfold staleRepo
  dsimp only
  split
  · rfl
  · rename_i lastCheck hlast
    rw [db.lookup_getRepoSummaries] at hlast
    obtain ⟨summary, hsummary, hcheck⟩ := Option.bind_eq_some_iff.1 hlast
    obtain ⟨s, hs, rfl⟩ := Option.map_eq_some_iff.1 hsummary
    obtain ⟨hne, hcheck⟩ := Option.ite_none_left_eq_some.1 hcheck
    cases hcheck
    rw [Option.isSome_map]
    exact htimes s (Table.mem_of_get hs) hne

/-- **The stale ids** are those of the repositories that are stale by themselves. -/
theorem repoStaleness_eq (htimes : TimesOk fromisoformat db) :
    ∃ stale, repoStaleness fromisoformat now config db.getRepoSummaries = some stale ∧ ∀ repo ∈ config.repos,
      (stale.map StaleRepo.repoId).contains repo.id =
        (staleRepo fromisoformat now config db.getRepoSummaries repo).join.isSome := by
  set find := staleRepo fromisoformat now config db.getRepoSummaries with hfind
  refine ⟨(config.repos.filterMap find).filterMap id, ?_, fun repo hrepo => ?_⟩
  · unfold repoStaleness
    rw [mapM_eq_some_iff.2 ⟨fun repo _ => staleRepo_isSome htimes repo, rfl⟩]
    rfl
  · rw [Bool.eq_iff_iff, List.contains_iff_mem, List.mem_map]
    constructor
    · rintro ⟨stale, hstale, hid⟩
      obtain ⟨found, hfound, hsome⟩ := List.mem_filterMap.1 hstale
      obtain ⟨other, hother, hfound⟩ := List.mem_filterMap.1 hfound
      cases hsome
      have hsame : other.id = repo.id := (repoId_of_staleRepo hfound).symm.trans hid
      have heq : some other = some repo := by
        rw [← Config.repoById_of_mem hother, hsame, Config.repoById_of_mem hrepo]
      cases heq
      rw [hfound]
      rfl
    · intro hstale
      obtain ⟨stale, hstale⟩ := Option.isSome_iff_exists.1 hstale
      have hfound : find repo = some (some stale) := Option.join_eq_some_iff.1 hstale
      exact ⟨stale, List.mem_filterMap.2 ⟨some stale, List.mem_filterMap.2 ⟨repo, hrepo, hfound⟩, rfl⟩,
        repoId_of_staleRepo hfound⟩

/-- **A status payload** lists every repository's own status. -/
theorem statusPayload_eq (htimes : TimesOk fromisoformat db) : statusPayload fromisoformat now config db none =
    some (200, .object (config.repos.map fun repo => (repo.id, ownStatus fromisoformat now config db repo))) := by
  obtain ⟨stale, hstale, hids⟩ := @repoStaleness_eq fromisoformat now config db htimes
  unfold statusPayload
  rw [Option.filter_none]
  simp only [hstale, Option.bind_eq_bind, Option.bind_some, Option.all_none, List.filter_true]
  rw [Dict.rows_ofPairs]
  · congr 3
    refine List.map_congr_left fun repo hrepo => ?_
    rw [hids repo hrepo, db.lookup_getPendingReplacementCounts]
    rfl
  · rw [List.map_map]
    exact config.idsNodup

/-- **The payload of one repository** is its own status. -/
theorem statusPayload_some (htimes : TimesOk fromisoformat db) {id : Str} {repo : RepoConfig}
    (hrepo : config.repoById id = some repo) :
    statusPayload fromisoformat now config db (some id) = some (200, ownStatus fromisoformat now config db repo) := by
  obtain ⟨stale, hstale, hids⟩ := @repoStaleness_eq fromisoformat now config db htimes
  obtain ⟨hmem, rfl⟩ := Config.repoById_eq_some hrepo
  unfold statusPayload
  rw [Option.filter_some, if_neg (by rw [hrepo]; exact Bool.false_ne_true)]
  simp only [hstale, Option.bind_eq_bind, Option.bind_some, Option.all_some]
  set entry := fun repo : RepoConfig => (repo.id, statusEntry (db.getRepoSummaries.lookup repo.id)
    ((stale.map StaleRepo.repoId).contains repo.id) ((db.getPendingReplacementCounts.lookup repo.id).getD 0)) with hentry
  have hkeys : (((config.repos.filter fun other => other.id = repo.id).map entry).map Prod.fst).Nodup := by
    rw [List.map_map]
    exact (List.filter_sublist.map _).nodup config.idsNodup
  have hlookup : (Dict.ofPairs ((config.repos.filter fun other => other.id = repo.id).map entry)).lookup repo.id =
      some (ownStatus fromisoformat now config db repo) := by
    refine (Dict.lookup_ofPairs_iff hkeys).2 (List.mem_map.2 ⟨repo, List.mem_filter.2 ⟨hmem, by simp⟩, ?_⟩)
    rw [hentry]
    dsimp only
    rw [hids repo hmem, db.lookup_getPendingReplacementCounts]
    rfl
  rw [hlookup]
  rfl

end

/-- Two services have the same check interval, and of the given repositories the same entries in the same order, the same
check states and the same replacements. -/
structure AgreeOn (ids : List Str) (config config' : Config) (db db' : Database) : Prop where
  checkInterval : config.checkInterval = config'.checkInterval
  repos : config.repos.filter (fun repo => repo.id ∈ ids) = config'.repos.filter fun repo => repo.id ∈ ids
  state : ∀ id ∈ ids, db.repoState.get id = db'.repoState.get id
  pending : ∀ id ∈ ids, ∀ key, db.pendingReplacements.get (id, key) = db'.pendingReplacements.get (id, key)

/-- `{k: v for k, v in payload.items() if k in allowed_repos}`. -/
def restrict (allowed : List Str) : Json → Json
  | .object fields => .object (fields.filter fun field => field.1 ∈ allowed)
  | json => json

namespace AgreeOn
variable {ids : List Str} {config config' : Config} {db db' : Database} {fromisoformat : Str → Option Int} {now : Int}

theorem countP_pending (h : AgreeOn ids config config' db db') {id : Str} (hid : id ∈ ids) :
    (db.pendingReplacements.rows.countP fun q => q.repoId = id) =
      db'.pendingReplacements.rows.countP fun q => q.repoId = id := by
  rw [List.countP_eq_length_filter, List.countP_eq_length_filter]
  refine List.Perm.length_eq ((List.perm_ext_iff_of_nodup ?_ ?_).2 fun q => ?_)
  · exact (List.Nodup.of_map _ db.pendingReplacements.keysNodup).filter _
  · exact (List.Nodup.of_map _ db'.pendingReplacements.keysNodup).filter _
  · simp only [List.mem_filter, decide_eq_true_eq]
    refine and_congr_left fun hq => ?_
    rw [Table.mem_rows_iff, Table.mem_rows_iff, show q.pk = (id, q.packageKey) from by rw [← hq]; rfl, h.pending id hid]

theorem ownStatus_eq (h : AgreeOn ids config config' db db') {repo : RepoConfig} (hid : repo.id ∈ ids) :
    ownStatus fromisoformat now config db repo = ownStatus fromisoformat now config' db' repo := by
  have hsummary : db.getRepoSummaries.lookup repo.id = db'.getRepoSummaries.lookup repo.id := by
    rw [db.lookup_getRepoSummaries, db'.lookup_getRepoSummaries, h.state _ hid]
  unfold ownStatus staleRepo Config.effectiveCheckInterval
  rw [hsummary, h.countP_pending hid, h.checkInterval]

theorem repoById_eq (h : AgreeOn ids config config' db db') {id : Str} (hid : id ∈ ids) :
    config.repoById id = config'.repoById id := by
  have hfilter : ∀ config : Config, config.repoById id =
      (config.repos.filter fun repo => repo.id ∈ ids).find? fun repo => repo.id == id := fun config => by
    unfold Config.repoById
    rw [List.find?_filter]
    congr 1
    funext repo
    by_cases hrepo : repo.id = id
    · simp [hrepo, hid]
    · simp [hrepo]
  rw [hfilter, hfilter, h.repos]

/-- **What is restricted to the repositories that two services agree on** is the same. -/
theorem statusPayload_restrict (h : AgreeOn ids config config' db db') (htimes : TimesOk fromisoformat db)
    (htimes' : TimesOk fromisoformat db') :
      (statusPayload fromisoformat now config db none).map (fun p => (p.1, restrict ids p.2)) =
      (statusPayload fromisoformat now config' db' none).map fun p => (p.1, restrict ids p.2) := by
  rw [statusPayload_eq htimes, statusPayload_eq htimes', Option.map_some, Option.map_some]
  unfold restrict
  dsimp only
  rw [List.filter_map, List.filter_map]
  have hfields : (config.repos.filter fun repo => repo.id ∈ ids).map (fun repo =>
      (repo.id, ownStatus fromisoformat now config db repo)) = (config'.repos.filter fun repo => repo.id ∈ ids).map fun repo =>
      (repo.id, ownStatus fromisoformat now config' db' repo) := by
    rw [← h.repos]
    refine List.map_congr_left fun repo hrepo => ?_
    rw [h.ownStatus_eq (by simpa using (List.mem_filter.1 hrepo).2)]
  exact congrArg (fun fields => some (200, Json.object fields)) hfields

theorem statusPayload_one (h : AgreeOn ids config config' db db') (htimes : TimesOk fromisoformat db)
    (htimes' : TimesOk fromisoformat db') {id : Str} (hid : id ∈ ids) :
    statusPayload fromisoformat now config db (some id) = statusPayload fromisoformat now config' db' (some id) := by
  cases hrepo : config.repoById id with
  | none =>
    have hrepo' := hrepo
    rw [h.repoById_eq hid] at hrepo'
    unfold statusPayload
    rw [Option.filter_some, Option.filter_some, hrepo, hrepo']
    rfl
  | some repo =>
    have hrepo' := hrepo
    rw [h.repoById_eq hid] at hrepo'
    have hrid : repo.id = id := (Config.repoById_eq_some hrepo).2
    rw [statusPayload_some htimes hrepo, statusPayload_some htimes' hrepo', h.ownStatus_eq (hrid ▸ hid)]

end AgreeOn
end RepoWatch
