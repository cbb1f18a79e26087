import RepoWatch.Dedup
import RepoWatch.PurgeRuns
import RepoWatch.RefreshTargets
/-!
# CacheWork — what is purged and what the warm records still say

A check leaves packages to warm and files to purge, and an hourly sweep purges the warmed files of packages that no index
lists.  Both find a file by its package key, while the cache holds it by its path, or by the path that its own redirects
to.  A file that is purged may be that of another package, in the same repository or in another one, whose record goes on
saying that it is warm.
-/
namespace RepoWatch

open Lib

structure CacheWork where
  warm : Dict Str Str
  removedFilenames : List (Str × Str)

/-- What `check_index` returns for a repository that is not a Nix one, of the demanded keys and the queue it finds. -/
def cacheWork (s : RepoSnapshot) (diff : DiffResult) (interested : List Str) (pending : List PendingItem) :
    Option CacheWork :=
  if diff.changed = false then
    if pending = [] then none else some ⟨.empty, []⟩
  else
    let keys := diff.newPackages.filter fun key => key ∈ interested
    some ⟨.ofPairs (keys.filterMap fun key => (s.packages.lookup key).map fun filename => (key, filename)),
      diff.removedFilenames⟩

/-- What one attempt to warm a package reports, and when it is recorded. -/
structure Attempt where
  ok : Bool
  httpStatus : Option Int
  now : Str
  revision : Str

/-- `record_warmed_package` after an attempt; `none` is a package that automatic warming was switched off for. -/
def Database.recordAttempt (db : Database) (repoId key filename : Str) : Option Attempt → Database
  | none => db
  | some a => db.recordWarmedPackage repoId key filename a.ok a.httpStatus "prefetch".toList a.now a.revision

namespace RefreshContext
variable (c : RefreshContext)

/-- What the requests of a refresh do to the database. -/
def effect (db : Database) : (r : Request) → r.Answer → Database → Prop
  | .purge .., _, db' => db' = db
  | .warm key filename _, warmed, db' => ∃ attempt : Option Attempt, attempt.map Attempt.ok = warmed ∧
      db' = db.recordAttempt c.repo.id key filename attempt
  | .finish key revision error, _, db' => db' = db.finishReplacement c.repo.id key revision error

/-- The packages that `_warm_cache` attempts. -/
def warmTasks (packages : Dict Str Str) : List (Str × Str) :=
  packages.rows.filter fun p => decide (p.2 ≠ []) && c.allows p.1

/-- `warm_cache`, with what each package's attempt reports. -/
def warmCache (attempts : Str → Option Attempt) (packages : Dict Str Str) (db : Database) : Database :=
  if c.repo.prefetch = false then db
  else (c.warmTasks packages).foldl (fun db task => db.recordAttempt c.repo.id task.1 task.2 (attempts task.1)) db

/-- The file names that `purge_removed` evicts, with the outcome of each key's request. -/
def purgeRemoved (outcomes : Str → Str) (removed : List (Str × Str)) : List Str :=
  if c.config.nginx.enablePurge = false then []
  else removed.filterMap fun p => if outcomes p.1 = "purged".toList then some p.2 else none

end RefreshContext

/-! ## The files that a purge evicts -/

section Files
variable (lower : Str → Str) (config : Config) (db : Database)

/-- The keys of the paths that the catalog redirects. -/
def sharedKeys : Except Error (Dict Str Str) := do
  let builder ← CacheKeyBuilder.new config
  dedupKeys lower config db.findDuplicateFiles builder (acceptedPairs lower config db db.findDuplicateFiles)

/-- The cache key of a package's file: that of the shared copy if its path is redirected. -/
def fileKey (repo : RepoConfig) (filename : Str) : Option Str :=
  match (sharedKeys lower config db).toOption.bind fun redirects => redirects.lookup (lower (packagePath repo filename)) with
  | some key => if key = [] then none else some key
  | none => (computeCacheKey config repo filename).toOption

/-- `_purge_batch`: the key that the purge location of a path evicts. -/
def locationKeys (repo : RepoConfig) (filename : Str) : Except Error (List Str) := do
  return [← computeCacheKey config repo filename]

/-- `purge_selected_raw`: the keys of an item, with the `canonical_keys` of `purge_items`. -/
def rawKeys (repo : RepoConfig) (filename : Str) : Except Error (List Str) := do
  let redirects ← sharedKeys lower config db
  let builder ← CacheKeyBuilder.new config
  let keyFor ← builder.forRepo repo
  let canonical := (redirects.lookup (lower (packagePath repo filename))).filter fun key => key ≠ []
  return fromkeys (keyFor.key filename :: keyFor.key filename (some !config.nginx.enableDedup) :: canonical.toList)

/-- `purge_items`: the keys of an item. -/
def itemKeys (repo : RepoConfig) (filename : Str) : Except Error (List Str) :=
  if config.nginx.enableCacheProbe then rawKeys lower config db repo filename else locationKeys config repo filename

/-- The file of a package has the path of one that is purged, or one of the keys that the purge evicts. -/
def Touches (keys : Except Error (List Str)) (path : Str) (owner : RepoConfig) (filename : Str) : Prop :=
  packagePath owner filename = path ∨
    ∃ list key, keys = .ok list ∧ key ∈ list ∧ fileKey lower config db owner filename = some key

instance (keys : Except Error (List Str)) (path : Str) (owner : RepoConfig) (filename : Str) :
    Decidable (Touches lower config db keys path owner filename) :=
  decidable_of_iff (packagePath owner filename = path ∨
      ∃ key ∈ keys.toOption.getD [], fileKey lower config db owner filename = some key) <| or_congr_right <| by
    cases keys <;> simp [Except.toOption]

end Files

/-- `purge_selected_raw`: the outcome of an item, of those of its keys. -/
def rawOutcome (outcomes : List Str) : Str :=
  match outcomes.filter fun outcome => !isConfirmed outcome with
  | error :: _ => error
  | [] => if "purged".toList ∈ outcomes then "purged".toList else "not_cached".toList

/-- One run of `apply_cache_work` for a repository that is not a Nix one: its refresh, and what its warms and purges
report. -/
structure CacheRun (c : RefreshContext) (work : CacheWork) (db : Database) where
  plain : c.repo.type ≠ .nix
  log : RefreshLog
  refreshed : Database
  executed : Program.Executed c.effect (c.refreshReplacements (db.getPendingReplacements c.repo.id)) log db refreshed
  attempts : Str → Option Attempt
  outcomes : Str → Str

namespace CacheRun
variable {c : RefreshContext} {work : CacheWork} {db : Database}

def result (run : CacheRun c work db) : Database := c.warmCache run.attempts work.warm run.refreshed

/-- The run evicts the file of a package. -/
def Evicts (lower : Str → Str) (run : CacheRun c work db) (owner : RepoConfig) (filename : Str) : Prop :=
  ∃ removed ∈ c.purgeRemoved run.outcomes work.removedFilenames,
    Touches lower c.config db (locationKeys c.config c.repo removed) (packagePath c.repo removed) owner filename

end CacheRun

/-! ## The sweep -/

/-- `CacheStore.find_all_stale_warmed`. -/
def Database.findAllStaleWarmed (db : Database) : List (Str × Str × Str) :=
  ((db.warmedPackages.rows.filter fun w => (db.repoPackages.get w.pk).isNone).insertionSort fun w w' =>
    pairLe w.pk w'.pk).map fun w => (w.repoId, w.packageKey, w.filename)

/-- One run of the sweep of `prune_all`, when no repository is a Nix one and no purge raises: what its requests are
answered, and what the key of each item is answered (by repository, package key and cache key). -/
structure SweepRun (lower : Str → Str) (config : Config) (db : Database) where
  plain : ∀ repo ∈ config.repos, repo.type ≠ .nix
  enabled : config.nginx.enablePurge = true
  routed : config.nginx.enableCacheProbe = true → ∃ routes, computeRoutes config = .ok routes
  log : PurgeLog
  result : Database
  executed : Program.Executed Answers
    (purgeRemovedFromIndex config (db.findAllStaleWarmed.map fun item => (item.1, item.2.1))) log db result
  keyOutcome : Str → Str → Str → Str
  answered : ∀ repo items, ∀ results : Dict Str Str, ⟨.purge repo items, results⟩ ∈ log →
    ∀ key filename keys, items.lookup key = some filename → itemKeys lower config db repo filename = .ok keys →
      results.lookup key = some (rawOutcome (keys.map (keyOutcome repo.id key)))

/-- The sweep evicts the file of a package: by the path of an item, or by a key that was purged for it. -/
def SweepRun.Evicts {lower : Str → Str} {config : Config} {db : Database} (run : SweepRun lower config db)
    (owner : RepoConfig) (filename : Str) : Prop :=
  ∃ repo items key removed, ∃ results : Dict Str Str, ⟨.purge repo items, results⟩ ∈ run.log ∧
    items.lookup key = some removed ∧
    (results.lookup key = some "purged".toList ∧ packagePath owner filename = packagePath repo removed ∨
      ∃ keys k, itemKeys lower config db repo removed = .ok keys ∧ k ∈ keys ∧
        run.keyOutcome repo.id key k = "purged".toList ∧ fileKey lower config db owner filename = some k)

/-! ## Truthful records -/

/-- The warm record of a key says `ok`. -/
def Database.WarmOk (db : Database) (pk : Str × Str) : Prop := ∃ row, db.warmedPackages.get pk = some row ∧ row.ok = true

/-- No file that a purge evicts is that of a package that a configured repository lists and that satisfies `P`. -/
def Spares (config : Config) (db : Database) (P : PackageRow → Prop) (evicts : RepoConfig → Str → Prop) : Prop :=
  ∀ repo ∈ config.repos, ∀ p ∈ db.packagesOf repo.id, evicts repo p.filename → ¬ P p

/-- No evicted file is that of a listed package whose record says `ok`. -/
def Truthful (config : Config) (db : Database) (evicts : RepoConfig → Str → Prop) : Prop :=
  Spares config db (fun p => db.WarmOk p.pk) evicts

namespace RefreshContext
variable (c : RefreshContext)

/-- A key that a refresh may warm: all targets of its replacement are available. -/
def Refreshable (pending : List PendingItem) (key : Str) : Prop :=
  ∃ item ∈ pending, item.packageKey = key ∧ (∀ t ∈ item.targets, c.isUnavailable t = false) ∧
    c.toWarm item.packageKey item.filename = true

/-- A package that is warm, or that the refresh or the warm of a run may leave warm. -/
def MayBeWarm (work : CacheWork) (db : Database) (p : PackageRow) : Prop :=
  db.WarmOk p.pk ∨ p.repoId = c.repo.id ∧ (c.Refreshable (db.getPendingReplacements c.repo.id) p.packageKey ∨
    c.repo.prefetch = true ∧ ∃ task ∈ c.warmTasks work.warm, task.1 = p.packageKey)

end RefreshContext
/-! ## What a refresh leaves warm -/

section Refresh
variable {c : RefreshContext} {db db' : Database} {pk : Str × Str}

/-- A refresh warms only what is refreshable. -/
def RefreshContext.WarmsRefreshable (c : RefreshContext) (pending : List PendingItem) : RefreshLog → Request → Prop
  | _, .warm key _ _ => c.Refreshable pending key
  | _, _ => True

theorem purgeTargets_refreshable {pending : List PendingItem} {key : Str} {next : Option Str → RefreshProgram} :
    ∀ (targets : List (Str × Str)) (log : RefreshLog),
      (∀ log' error, (error = none → ∀ t ∈ targets, c.isUnavailable t = false) →
        (next error).Safe (c.WarmsRefreshable pending) log') →
      (purgeTargets c.config c.repo key next targets).Safe (c.WarmsRefreshable pending) log
  | [], log, hnext => hnext log none fun _ t ht => absurd ht List.not_mem_nil
  | (targetId, filename) :: targets, log, hnext => by
    have hcons : c.isUnavailable (targetId, filename) = false → ∀ log',
        (purgeTargets c.config c.repo key next targets).Safe (c.WarmsRefreshable pending) log' := by
      refine fun havailable log' => purgeTargets_refreshable targets log' fun log'' error hall => hnext log'' error ?_
      intro hnone t ht
      rcases List.mem_cons.1 ht with rfl | ht
      · exact havailable
      · exact hall hnone t ht
    unfold purgeTargets
    split
    · rename_i hforeign
      refine hcons (Bool.eq_false_iff.2 fun h => ?_) log
      exact (RefreshContext.isUnavailable_iff.1 h).1.1.elim hforeign.1 (by simp [hforeign.2])
    split
    · rename_i hempty
      exact hcons (Bool.eq_false_iff.2 fun h => (RefreshContext.isUnavailable_iff.1 h).1.2 hempty) log
    split
    · exact hnext log _ fun h => by cases h
    · rename_i target htarget
      refine ⟨trivial, fun (outcome : Str) => ?_⟩
      dsimp only
      split
      · refine hcons (Bool.eq_false_iff.2 fun h => ?_) _
        rw [(RefreshContext.isUnavailable_iff.1 h).2] at htarget
        cases htarget
      · exact hnext _ _ fun h => by cases h

theorem refreshReplacements_refreshable (c : RefreshContext) (pending : List PendingItem) (log : RefreshLog) :
    (c.refreshReplacements pending).Safe (c.WarmsRefreshable pending) log := by
  suffices h : ∀ items : List PendingItem, items ⊆ pending → ∀ log,
      (items.foldr c.refreshItem .done).Safe (c.WarmsRefreshable pending) log from h pending (List.Subset.refl _) log
  intro items
  induction items with
  | nil => exact fun _ _ => trivial
  | cons item items ih =>
    intro hsub log
    have hrest := ih fun x hx => hsub (List.mem_cons_of_mem _ hx)
    have hfinish : ∀ log error, (error = none → ∀ t ∈ item.targets, c.isUnavailable t = false) →
        (c.warmReplacement item error fun error => .request (.finish item.packageKey item.revision error)
          fun (_ : Unit) => items.foldr c.refreshItem .done).Safe (c.WarmsRefreshable pending) log := by
      intro log error herror
      unfold RefreshContext.warmReplacement
      split
      · split
        · rename_i hwarm
          exact ⟨⟨item, hsub List.mem_cons_self, rfl, herror rfl, hwarm⟩, fun _ => ⟨trivial, fun _ => hrest _⟩⟩
        · exact ⟨trivial, fun _ => hrest _⟩
      · exact ⟨trivial, fun _ => hrest _⟩
    rw [List.foldr_cons, RefreshContext.refreshItem]
    dsimp only
    split
    · exact hfinish log _ fun h => by cases h
    · exact purgeTargets_refreshable item.targets log hfinish

@[simp] theorem recordAttempt_repoPackages {repoId key filename : Str} {attempt : Option Attempt} :
    (db.recordAttempt repoId key filename attempt).repoPackages = db.repoPackages := by
  cases attempt <;> rfl

/-- After an attempt a record says `ok` only if it did before, or the attempt was a success. -/
theorem warmOk_recordAttempt {repoId key filename : Str} {attempt : Option Attempt}
    (h : (db.recordAttempt repoId key filename attempt).WarmOk pk) :
    db.WarmOk pk ∨ pk = (repoId, key) ∧ attempt.map Attempt.ok = some true := by
  cases attempt with
  | none => exact .inl h
  | some a =>
    obtain ⟨row, hrow, hok⟩ := h
    rw [Database.recordAttempt, Database.get_recordWarmedPackage] at hrow
    split at hrow
    · rename_i hpk
      cases hrow
      exact .inr ⟨hpk, congrArg some hok⟩
    · exact .inl ⟨row, hrow, hok⟩

/-- An attempt that is not a failure leaves a record that said `ok`. -/
theorem WarmOk.recordAttempt {repoId key filename : Str} {attempt : Option Attempt} (h : db.WarmOk pk)
    (hok : attempt.map Attempt.ok ≠ some false) : (db.recordAttempt repoId key filename attempt).WarmOk pk := by
  cases attempt with
  | none => exact h
  | some a =>
    unfold Database.WarmOk Database.recordAttempt
    rw [Database.get_recordWarmedPackage]
    split
    · refine ⟨_, rfl, ?_⟩
      change a.ok = true
      simpa using hok
    · exact h

theorem warmOk_of_success {repoId key filename : Str} {attempt : Option Attempt}
    (hok : attempt.map Attempt.ok = some true) : (db.recordAttempt repoId key filename attempt).WarmOk (repoId, key) := by
  obtain ⟨a, rfl, htrue⟩ := Option.map_eq_some_iff.1 hok
  unfold Database.WarmOk Database.recordAttempt
  rw [Database.get_recordWarmedPackage, if_pos rfl]
  exact ⟨_, rfl, htrue⟩

theorem effect_repoPackages {r : Request} {a : r.Answer} (h : c.effect db r a db') :
    db'.repoPackages = db.repoPackages := by
  cases r with
  | purge => exact congrArg Database.repoPackages h
  | warm key filename hash =>
    obtain ⟨attempt, -, rfl⟩ := h
    exact recordAttempt_repoPackages
  | finish key revision error =>
    obtain rfl : db' = db.finishReplacement c.repo.id key revision error := h
    exact Database.finishReplacement_repoPackages

/-- A record that says `ok` after a request of a refresh said so before, or the request was its warm. -/
theorem warmOk_effect {r : Request} {a : r.Answer} (h : c.effect db r a db') (hok : db'.WarmOk pk) :
    db.WarmOk pk ∨ ∃ key filename hash, r = .warm key filename hash ∧ pk = (c.repo.id, key) := by
  cases r with
  | purge =>
    obtain rfl : db' = db := h
    exact .inl hok
  | warm key filename hash =>
    obtain ⟨attempt, -, rfl⟩ := h
    exact (warmOk_recordAttempt hok).imp_right fun h => ⟨key, filename, hash, rfl, h.1⟩
  | finish key revision error =>
    obtain rfl : db' = db.finishReplacement c.repo.id key revision error := h
    unfold Database.WarmOk at hok
    rw [Database.finishReplacement_warmedPackages] at hok
    exact .inl hok

/-- An answer without a failure. -/
def Succeeds (e : Σ r : Request, r.Answer) : Prop :=
  (∀ target key filename (outcome : Str), e = ⟨.purge target key filename, outcome⟩ → isConfirmed outcome = true) ∧
    ∀ key filename hash (warmed : Option Bool), e = ⟨.warm key filename hash, warmed⟩ → warmed = some true

theorem WarmOk.effect {e : Σ r : Request, r.Answer} (h : db.WarmOk pk) (he : Succeeds e)
    (heffect : c.effect db e.1 e.2 db') : db'.WarmOk pk := by
  obtain ⟨r, a⟩ := e
  cases r with
  | purge =>
    obtain rfl : db' = db := heffect
    exact h
  | warm key filename hash =>
    obtain ⟨attempt, hattempt, rfl⟩ := heffect
    refine WarmOk.recordAttempt h ?_
    rw [hattempt, he.2 key filename hash a rfl]
    exact fun h => by cases h
  | finish key revision error =>
    obtain rfl : db' = db.finishReplacement c.repo.id key revision error := heffect
    unfold Database.WarmOk
    rw [Database.finishReplacement_warmedPackages]
    exact h

theorem exists_success (c : RefreshContext) (db : Database) (r : Request) :
    ∃ a db', c.effect db r a db' ∧ Succeeds ⟨r, a⟩ := by
  cases r with
  | purge target key filename =>
    refine ⟨"purged".toList, db, rfl, ?_, ?_⟩
    · intro _ _ _ outcome he
      cases he
      rfl
    · intro _ _ _ _ he
      cases he
  | warm key filename hash =>
    refine ⟨some true, _, ⟨some ⟨true, none, [], []⟩, rfl, rfl⟩, ?_, ?_⟩
    · intro _ _ _ _ he
      cases he
    · intro _ _ _ warmed he
      cases he
      rfl
  | finish key revision error =>
    refine ⟨(), _, rfl, ?_, ?_⟩
    · intro _ _ _ _ he
      cases he
    · intro _ _ _ _ he
      cases he

theorem purgesSucceed_of_forall {log : RefreshLog} (h : ∀ e ∈ log, Succeeds e) : RefreshContext.PurgesSucceed log :=
  fun target key filename outcome hm => (h _ hm).1 target key filename outcome rfl

/-- **A refresh without a failure** warms every refreshable item. -/
theorem warm_mem_requests (hpurge : c.config.nginx.enablePurge = true) {item : PendingItem}
    (havailable : ∀ t ∈ item.targets, c.isUnavailable t = false) (hwarm : c.toWarm item.packageKey item.filename = true) :
    ∀ {pending : List PendingItem} {log : RefreshLog}, (c.refreshReplacements pending).Path log →
      RefreshContext.PurgesSucceed log → item ∈ pending →
      ∃ filename hash, .warm item.packageKey filename hash ∈ Program.requests log
  | [], _, _, _, hitem => absurd hitem List.not_mem_nil
  | first :: pending, log, hpath, hok, hitem => by
    rcases List.mem_cons.1 hitem with rfl | hitem
    · have hitempath : (c.refreshItem item (c.refreshReplacements pending)).Path log := hpath
      unfold RefreshContext.refreshItem at hitempath
      dsimp only at hitempath
      rw [if_neg (by simp [hpurge])] at hitempath
      obtain ⟨purges, rest, error, rfl, -, hnext, herror⟩ := RefreshContext.requests_purgeTargets hitempath hok
      have hreached : c.reached item.targets = item.targets := List.takeWhile_eq_self_iff.2 fun t ht => by
        simp [havailable t ht]
      rw [herror.2 hreached] at hnext
      unfold RefreshContext.warmReplacement at hnext
      split at hnext
      · rename_i filename _ _
        rw [if_pos hwarm] at hnext
        obtain ⟨warmed, more, rfl, -⟩ := hnext
        exact ⟨filename, _, by rw [Program.requests_append]; exact List.mem_append_right _ List.mem_cons_self⟩
      · rename_i hcase
        unfold RefreshContext.toWarm at hwarm
        simp only [Bool.and_eq_true] at hwarm
        obtain ⟨filename, hfile, -⟩ := known_iff.1 hwarm.1.1.1
        exact absurd hfile (hcase filename rfl)
    · obtain ⟨own, more, rfl, hmore, -⟩ := RefreshContext.requests_refreshItem hpurge hpath hok
      have hok' : RefreshContext.PurgesSucceed more := fun target key filename outcome hm =>
        hok target key filename outcome (List.mem_append_right _ hm)
      obtain ⟨filename, hash, hmem⟩ := warm_mem_requests hpurge havailable hwarm hmore hok' hitem
      exact ⟨filename, hash, by rw [Program.requests_append]; exact List.mem_append_right _ hmem⟩

abbrev RefreshRun (c : RefreshContext) (db : Database) (log : RefreshLog) (db' : Database) : Prop :=
  Run (fun s (e : Σ r : Request, r.Answer) s' => c.effect s e.1 e.2 s') db log db'

theorem RefreshRun.repoPackages {log : RefreshLog} (h : RefreshRun c db log db') :
    db'.repoPackages = db.repoPackages :=
  h.invariant (fun s => s.repoPackages = db.repoPackages) (fun _ _ _ hs hstep => (effect_repoPackages hstep).trans hs) rfl

theorem RefreshRun.warmOk {log : RefreshLog} (h : RefreshRun c db log db') : (∀ e ∈ log, Succeeds e) → db.WarmOk pk →
    db'.WarmOk pk := by
  induction h with
  | nil => exact fun _ hok => hok
  | snoc _ hstep ih =>
    intro hall hok
    exact WarmOk.effect (ih (fun e he => hall e (List.mem_append_left _ he)) hok)
      (hall _ (List.mem_append_right _ (List.mem_singleton_self _))) hstep

/-- A record that a refresh leaves `ok` said so before, or is that of a refreshable item. -/
theorem RefreshRun.of_warmOk {pending : List PendingItem} {log : RefreshLog} (h : RefreshRun c db log db') :
    (∀ e ∈ log, ∀ key filename hash, e.1 = .warm key filename hash → c.Refreshable pending key) → db'.WarmOk pk →
    db.WarmOk pk ∨ ∃ key, pk = (c.repo.id, key) ∧ c.Refreshable pending key := by
  induction h with
  | nil => exact fun _ hok => .inl hok
  | snoc _ hstep ih =>
    intro hall hok
    rcases warmOk_effect hstep hok with hbefore | ⟨key, filename, hash, hr, hpk⟩
    · exact ih (fun e he => hall e (List.mem_append_left _ he)) hbefore
    · exact .inr ⟨key, hpk, hall _ (List.mem_append_right _ (List.mem_singleton_self _)) key filename hash hr⟩

theorem RefreshRun.warmOk_of_mem {log : RefreshLog} {key filename : Str} {hash : Option Str}
    (h : RefreshRun c db log db') (hall : ∀ e ∈ log, Succeeds e)
    (hmem : .warm key filename hash ∈ Program.requests log) : db'.WarmOk (c.repo.id, key) := by
  obtain ⟨⟨r, warmed⟩, he, hr⟩ := List.mem_map.1 hmem
  obtain rfl : r = .warm key filename hash := hr
  have hwarmed : (warmed : Option Bool) = some true := (hall _ he).2 key filename hash warmed rfl
  obtain ⟨before, after, rfl⟩ := List.append_of_mem he
  obtain ⟨s₁, s₂, -, hstep, hrest⟩ := Run.step_of_mem h
  obtain ⟨attempt, hattempt, hs₂⟩ : ∃ attempt : Option Attempt, attempt.map Attempt.ok = warmed ∧
    s₂ = s₁.recordAttempt c.repo.id key filename attempt := hstep
  have hok : s₂.WarmOk (c.repo.id, key) := hs₂ ▸ warmOk_of_success (hattempt.trans hwarmed)
  exact RefreshRun.warmOk hrest (fun e he => hall e (List.mem_append_right _ (List.mem_cons_of_mem _ he))) hok

/-! ## What a warm leaves -/

section Warm
variable {attempts : Str → Option Attempt} {packages : Dict Str Str}

theorem foldl_recordAttempt_repoPackages {repoId : Str} : ∀ (tasks : List (Str × Str)) (db : Database),
    (tasks.foldl (fun db task => db.recordAttempt repoId task.1 task.2 (attempts task.1)) db).repoPackages =
      db.repoPackages
  | [], _ => rfl
  | _ :: tasks, db => by
    rw [List.foldl_cons, foldl_recordAttempt_repoPackages tasks, recordAttempt_repoPackages]

theorem warmOk_foldl {repoId : Str} : ∀ (tasks : List (Str × Str)) (db : Database),
    (tasks.foldl (fun db task => db.recordAttempt repoId task.1 task.2 (attempts task.1)) db).WarmOk pk →
      db.WarmOk pk ∨ ∃ task ∈ tasks, pk = (repoId, task.1)
  | [], _, h => .inl h
  | task :: tasks, db, h => by
    rw [List.foldl_cons] at h
    rcases warmOk_foldl tasks _ h with h | ⟨task', htask', hpk⟩
    · exact (warmOk_recordAttempt h).imp_right fun h => ⟨task, List.mem_cons_self, h.1⟩
    · exact .inr ⟨task', List.mem_cons_of_mem _ htask', hpk⟩

theorem WarmOk.foldl {repoId : Str} (hall : ∀ key, (attempts key).map Attempt.ok = some true) :
    ∀ (tasks : List (Str × Str)) (db : Database), (db.WarmOk pk ∨ ∃ task ∈ tasks, pk = (repoId, task.1)) →
      (tasks.foldl (fun db task => db.recordAttempt repoId task.1 task.2 (attempts task.1)) db).WarmOk pk
  | [], _, h => h.resolve_right fun ⟨_, ht, _⟩ => absurd ht List.not_mem_nil
  | task :: tasks, db, h => by
    rw [List.foldl_cons]
    refine WarmOk.foldl hall tasks _ ?_
    rcases h with h | ⟨task', htask', hpk⟩
    · refine .inl (WarmOk.recordAttempt h ?_)
      rw [hall]
      exact fun h => by cases h
    · rcases List.mem_cons.1 htask' with rfl | htask'
      · exact .inl (hpk ▸ warmOk_of_success (hall _))
      · exact .inr ⟨task', htask', hpk⟩

theorem warmCache_repoPackages : (c.warmCache attempts packages db).repoPackages = db.repoPackages := by
  unfold RefreshContext.warmCache
  split
  · rfl
  · exact foldl_recordAttempt_repoPackages ..

theorem of_warmOk_warmCache (h : (c.warmCache attempts packages db).WarmOk pk) :
    db.WarmOk pk ∨ c.repo.prefetch = true ∧ ∃ task ∈ c.warmTasks packages, pk = (c.repo.id, task.1) := by
  unfold RefreshContext.warmCache at h
  split at h
  · exact .inl h
  · rename_i hprefetch
    exact (warmOk_foldl _ _ h).imp_right fun h => ⟨by simpa using hprefetch, h⟩

theorem warmOk_warmCache (hall : ∀ key, (attempts key).map Attempt.ok = some true)
    (h : db.WarmOk pk ∨ c.repo.prefetch = true ∧ ∃ task ∈ c.warmTasks packages, pk = (c.repo.id, task.1)) :
    (c.warmCache attempts packages db).WarmOk pk := by
  unfold RefreshContext.warmCache
  split
  · rename_i hprefetch
    exact h.resolve_right fun h => by simp [hprefetch] at h
  · exact WarmOk.foldl hall _ _ (h.imp_right fun h => h.2)

end Warm
end Refresh

/-! ## The cache work of a check -/

theorem mem_packagesOf_congr {db db' : Database} (h : db'.repoPackages = db.repoPackages) (repoId : Str) (p : PackageRow) :
    p ∈ db'.packagesOf repoId ↔ p ∈ db.packagesOf repoId := by
  rw [Database.mem_packagesOf, Database.mem_packagesOf, h]

section Work
variable {c : RefreshContext} {work : CacheWork} {db : Database}

theorem CacheRun.repoPackages (run : CacheRun c work db) : run.result.repoPackages = db.repoPackages :=
  warmCache_repoPackages.trans (RefreshRun.repoPackages run.executed.2)

theorem mem_purgeRemoved {outcomes : Str → Str} {removed : List (Str × Str)} {filename : Str} :
    filename ∈ c.purgeRemoved outcomes removed ↔ c.config.nginx.enablePurge = true ∧
      ∃ p ∈ removed, outcomes p.1 = "purged".toList ∧ p.2 = filename := by
  unfold RefreshContext.purgeRemoved
  split
  · rename_i hpurge
    simp [hpurge]
  · rename_i hpurge
    rw [Bool.not_eq_false] at hpurge
    rw [and_iff_right hpurge, List.mem_filterMap]
    refine exists_congr fun p => and_congr_right fun _ => ?_
    split
    · rename_i hout
      simp [hout]
    · rename_i hout
      exact iff_of_false (by simp) fun h => hout h.1

/-- What a run leaves warm is what may be warm. -/
theorem CacheRun.mayBeWarm (run : CacheRun c work db) {p : PackageRow} (h : run.result.WarmOk p.pk) :
    c.MayBeWarm work db p := by
  rcases of_warmOk_warmCache h with h | ⟨hprefetch, task, htask, hpk⟩
  · have hallowed : ∀ e ∈ run.log, ∀ key filename hash, e.1 = .warm key filename hash →
        c.Refreshable (db.getPendingReplacements c.repo.id) key := by
      rintro ⟨r, a⟩ he key filename hash rfl
      obtain ⟨before, after, hlog⟩ := List.append_of_mem he
      exact (refreshReplacements_refreshable c _ []).path run.executed.1 before _ a after hlog
    rcases RefreshRun.of_warmOk run.executed.2 hallowed h with h | ⟨key, hpk, hkey⟩
    · exact .inl h
    · obtain ⟨hid, rfl⟩ := Prod.mk.inj hpk
      exact .inr ⟨hid, .inl hkey⟩
  · obtain ⟨hid, hkey⟩ := Prod.mk.inj hpk
    exact .inr ⟨hid, .inr ⟨hprefetch, task, htask, hkey.symm⟩⟩

/-- **A run without a failure** leaves warm all that may be warm and evicts all that is removed. -/
theorem exists_cacheRun (work : CacheWork) (db : Database) (hplain : c.repo.type ≠ .nix)
    (hpurge : c.config.nginx.enablePurge = true) :
    ∃ run : CacheRun c work db, (∀ p, c.MayBeWarm work db p → run.result.WarmOk p.pk) ∧
      ∀ p ∈ work.removedFilenames, p.2 ∈ c.purgeRemoved run.outcomes work.removedFilenames := by
  obtain ⟨log, refreshed, hexecuted, hall⟩ := Program.exists_executed (exists_success c)
    (c.refreshReplacements (db.getPendingReplacements c.repo.id)) db
  refine ⟨⟨hplain, log, refreshed, hexecuted, fun _ => some ⟨true, none, [], []⟩, fun _ => "purged".toList⟩, ?_, ?_⟩
  · intro p hp
    refine warmOk_warmCache (fun _ => rfl) ?_
    rcases hp with hp | ⟨hid, ⟨item, hitem, hkey, havailable, hwarm⟩ | ⟨hprefetch, task, htask, hkey⟩⟩
    · exact .inl (RefreshRun.warmOk hexecuted.2 hall hp)
    · obtain ⟨filename, hash, hmem⟩ := warm_mem_requests hpurge havailable hwarm hexecuted.1
        (purgesSucceed_of_forall hall) hitem
      have hok := RefreshRun.warmOk_of_mem hexecuted.2 hall hmem
      rw [hkey, ← hid] at hok
      exact .inl hok
    · exact .inr ⟨hprefetch, task, htask, Prod.ext hid hkey.symm⟩
  · exact fun p hp => mem_purgeRemoved.2 ⟨hpurge, p, hp, rfl, rfl⟩

/-- Every run of the cache work is truthful exactly when it spares the files of the packages that may be warm. -/
theorem truthful_cacheRun_iff (lower : Str → Str) (hplain : c.repo.type ≠ .nix) :
    (∀ run : CacheRun c work db, Truthful c.config run.result (run.Evicts lower)) ↔
      (c.config.nginx.enablePurge = true → ∀ removed ∈ work.removedFilenames, Spares c.config db (c.MayBeWarm work db)
        (Touches lower c.config db (locationKeys c.config c.repo removed.2) (packagePath c.repo removed.2))) := by
  constructor
  · intro h hpurge removed hremoved repo hrepo p hp htouches hwarm
    obtain ⟨run, hleaves, hevicts⟩ := exists_cacheRun work db hplain hpurge
    have hlisted := (mem_packagesOf_congr run.repoPackages repo.id p).2 hp
    exact h run repo hrepo p hlisted ⟨removed.2, hevicts removed hremoved, htouches⟩ (hleaves p hwarm)
  · rintro h run repo hrepo p hp ⟨filename, hevicted, htouches⟩ hwarm
    obtain ⟨hpurge, removed, hremoved, -, rfl⟩ := mem_purgeRemoved.1 hevicted
    have hlisted := (mem_packagesOf_congr run.repoPackages repo.id p).1 hp
    exact h hpurge removed hremoved repo hrepo p hlisted htouches (run.mayBeWarm hwarm)

end Work

/-! ## The sweep's work -/

section Sweep
variable {lower : Str → Str} {config : Config} {db db' : Database} {items : List (Str × Str)} {log : PurgeLog}
  {row : WarmedRow}

abbrev AnswersRun (log : PurgeLog) (db db' : Database) : Prop :=
  Run (fun s (e : Σ r : PurgeRequest, r.Answer) s' => Answers s e.1 e.2 s') db log db'

theorem AnswersRun.mem (h : AnswersRun log db db') : ∀ row ∈ db'.warmedPackages.rows, row ∈ db.warmedPackages.rows :=
  h.invariant (fun s => ∀ row ∈ s.warmedPackages.rows, row ∈ db.warmedPackages.rows)
    (fun _ _ _ hs hstep row hrow => hs row (Answers.mem hstep hrow)) fun _ hrow => hrow

theorem AnswersRun.repoPackages (h : AnswersRun log db db') : db'.repoPackages = db.repoPackages := by
  refine h.invariant (fun s => s.repoPackages = db.repoPackages) (fun s e s' hs hstep => ?_) rfl
  obtain ⟨r, a⟩ := e
  cases r with
  | expiry => exact (congrArg Database.repoPackages hstep).trans hs
  | read repoId keys cutoff => exact (congrArg Database.repoPackages hstep.2).trans hs
  | purge repo items => exact (congrArg Database.repoPackages hstep).trans hs
  | remove repoId records resolved => exact (congrArg Database.repoPackages hstep).trans hs

/-- What was read while the pass ran alone was in the database it started from. -/
theorem AnswersRun.mem_of_read (h : AnswersRun log db db') {repoId : Str} (hread : Read log repoId row) :
    row ∈ db.warmedPackages.rows := by
  obtain ⟨keys, cutoff, answer, hmem, hrow⟩ := hread
  obtain ⟨before, after, rfl⟩ := List.append_of_mem hmem
  obtain ⟨s₁, s₂, hbefore, hstep, -⟩ := Run.step_of_mem h
  obtain ⟨hanswer, -⟩ : answer = s₁.warmedRows repoId keys cutoff ∧ s₂ = s₁ := hstep
  rw [hanswer] at hrow
  exact AnswersRun.mem hbefore row (List.mem_filter.1 hrow).1

theorem Pass.lawful {pass : Pass} (h : pass.program.Path log) : Program.Lawful pass.Allowed log := by
  intro before r a after hlog
  have := pass.meets.safe.path h before r a after hlog
  rwa [List.nil_append] at this

theorem Lawful.left {pass : Pass} {log' : PurgeLog} (h : Program.Lawful pass.Allowed (log ++ log')) :
    Program.Lawful pass.Allowed log := fun before r a after hlog =>
  h before r a (after ++ log') (by rw [hlog, List.append_assoc, List.cons_append])

theorem Lawful.mem_items {pass : Pass} (h : Program.Lawful pass.Allowed log) {repoId : Str} (hread : Read log repoId row) :
    (repoId, row.packageKey) ∈ pass.items := by
  obtain ⟨keys, cutoff, answer, hmem, hrow⟩ := hread
  obtain ⟨before, after, hlog⟩ := List.append_of_mem hmem
  have hallowed : pass.Allowed before (.read repoId keys cutoff) := h before _ answer after hlog
  exact hallowed.2 _ (answer.selected row hrow).2.1

/-- **A record of the database** stays until the pass has read it. -/
theorem mem_or_read {pass : Pass} (h : AnswersRun log db db') (hrow : row ∈ db.warmedPackages.rows) :
    Program.Lawful pass.Allowed log → row ∈ db'.warmedPackages.rows ∨ Read log row.repoId row := by
  induction h with
  | nil => exact fun _ => .inl hrow
  | @snoc s s' as e hrun hstep ih =>
    intro hlawful
    rcases ih (Lawful.left hlawful) with hin | hread
    · by_cases hstays : row ∈ s'.warmedPackages.rows
      · exact .inl hstays
      obtain ⟨r, a⟩ := e
      cases r with
      | expiry => exact absurd ((show s' = s from hstep) ▸ hin) hstays
      | read repoId keys cutoff => exact absurd (hstep.2 ▸ hin) hstays
      | purge repo items => exact absurd ((show s' = s from hstep) ▸ hin) hstays
      | remove repoId records resolved =>
        obtain rfl : s' = s.removePurgedRecords repoId records resolved := hstep
        rw [row_removePurgedRecords, not_and, not_not] at hstays
        obtain ⟨rfl, -, record, hrecord, -⟩ := hstays hin
        have hallowed : pass.Allowed as (.remove row.repoId records resolved) := hlawful as _ a [] rfl
        obtain ⟨read, hread, hkey, -⟩ := (hallowed.1 _ _).1 hrecord
        have hpk : read.pk = row.pk := Prod.ext hread.repoId_eq hkey
        obtain rfl : read = row := by
          have hget := Table.get_of_mem (AnswersRun.mem_of_read hrun hread)
          rw [hpk, Table.get_of_mem hrow, Option.some.injEq] at hget
          exact hget.symm
        exact .inr (read_append.2 (.inl hread))
    · exact .inr (read_append.2 (.inl hread))

/-- The requests that end a purge well: every item is answered `purged`. -/
def Purges (e : Σ r : PurgeRequest, r.Answer) : Prop :=
  ∀ repo items, ∀ results : Dict Str Str, e = ⟨.purge repo items, results⟩ →
    ∀ key filename, items.lookup key = some filename → results.lookup key = some "purged".toList

theorem exists_answer (db : Database) (r : PurgeRequest) : ∃ a db', Answers db r a db' ∧ Purges ⟨r, a⟩ := by
  cases r with
  | expiry => exact ⟨([] : Str), db, rfl, fun _ _ _ he => by cases he⟩
  | read repoId keys cutoff => exact ⟨db.warmedRows repoId keys cutoff, db, ⟨rfl, rfl⟩, fun _ _ _ he => by cases he⟩
  | purge repo items =>
    refine ⟨Dict.ofPairs (items.keys.map fun key => (key, "purged".toList)), db, rfl, ?_⟩
    intro repo' items' results he key filename hitem
    cases he
    refine Dict.lookup_ofPairs_eq_some ?_ fun p hp _ => ?_
    · rw [List.map_map]
      exact List.mem_map.2 ⟨key, List.mem_map.2 ⟨_, Dict.lookup_eq_some_iff.1 hitem, rfl⟩, rfl⟩
    · obtain ⟨key', -, rfl⟩ := List.mem_map.1 hp
      rfl
  | remove repoId records resolved => exact ⟨(), _, rfl, fun _ _ _ he => by cases he⟩

/-- The package keys that the sweep is given. -/
def Database.staleKeys (db : Database) : List (Str × Str) := db.findAllStaleWarmed.map fun item => (item.1, item.2.1)

theorem mem_staleKeys {pk : Str × Str} : pk ∈ db.staleKeys ↔
    ∃ w ∈ db.warmedPackages.rows, db.repoPackages.get w.pk = none ∧ w.pk = pk := by
  unfold Database.staleKeys Database.findAllStaleWarmed
  rw [List.map_map, List.mem_map]
  simp only [List.mem_insertionSort, List.mem_filter, Option.isNone_iff_eq_none, and_assoc]
  rfl

theorem SweepRun.path (run : SweepRun lower config db) :
    (Pass.removed config db.staleKeys).program.Path run.log := run.executed.1

theorem SweepRun.answers (run : SweepRun lower config db) : AnswersRun run.log db run.result := run.executed.2

/-- The sweep forgets no listed package. -/
theorem SweepRun.warmOk (run : SweepRun lower config db) {p : PackageRow} (hp : p ∈ db.repoPackages.rows)
    (h : db.WarmOk p.pk) : run.result.WarmOk p.pk := by
  obtain ⟨row, hrow, hok⟩ := h
  have hpk := Table.key_of_get hrow
  rcases mem_or_read run.answers (Table.mem_of_get hrow) (Pass.lawful run.path) with hin | hread
  · exact ⟨row, hpk ▸ Table.get_of_mem hin, hok⟩
  · obtain ⟨w, -, hunlisted, hw⟩ := mem_staleKeys.1 (Lawful.mem_items (Pass.lawful run.path) hread)
    have hsame : w.pk = p.pk := hw.trans hpk
    rw [hsame, Table.get_of_mem hp] at hunlisted
    cases hunlisted

/-- The sweep may evict the file of a stale record. -/
def Stale (db : Database) (config : Config) (repo : RepoConfig) (filename : Str) : Prop :=
  ∃ w ∈ db.warmedPackages.rows, db.repoPackages.get w.pk = none ∧ config.repoById w.repoId = some repo ∧
    w.filename = filename

/-- **What the sweep purges** are the files of stale records. -/
theorem SweepRun.stale_of_purged (run : SweepRun lower config db) {repo : RepoConfig} {items results : Dict Str Str}
    {key filename : Str} (hmem : ⟨.purge repo items, results⟩ ∈ run.log) (hitem : items.lookup key = some filename) :
    Stale db config repo filename := by
  obtain ⟨before, after, hlog⟩ := List.append_of_mem hmem
  have hlawful := Pass.lawful run.path
  have hallowed : (Pass.removed config db.staleKeys).Allowed before (.purge repo items) :=
    hlawful before _ results after hlog
  obtain ⟨row, hread, rfl, rfl⟩ := (hallowed.2 key filename).1 hitem
  have hread' : Read run.log repo.id row := by
    rw [hlog]
    exact read_append.2 (.inl hread)
  have hrow := run.answers.mem_of_read hread'
  obtain ⟨w, -, hunlisted, hw⟩ := mem_staleKeys.1 (Lawful.mem_items hlawful hread')
  have hpk : w.pk = row.pk := hw.trans (Prod.ext hread.repoId_eq.symm rfl)
  refine ⟨row, hrow, hpk ▸ hunlisted, ?_, rfl⟩
  rw [hread.repoId_eq]
  exact hallowed.1

theorem SweepRun.touches_of_evicts (run : SweepRun lower config db) {owner : RepoConfig} {filename : Str}
    (h : run.Evicts owner filename) : ∃ repo removed, Stale db config repo removed ∧
      Touches lower config db (itemKeys lower config db repo removed) (packagePath repo removed) owner filename := by
  obtain ⟨repo, items, key, removed, results, hmem, hitem, hevicted⟩ := h
  refine ⟨repo, removed, run.stale_of_purged hmem hitem, ?_⟩
  rcases hevicted with ⟨-, hpath⟩ | ⟨keys, k, hkeys, hk, -, hfile⟩
  · exact .inl hpath
  · exact .inr ⟨keys, k, hkeys, hk, hfile⟩

theorem rawOutcome_purged {keys : List Str} (h : keys ≠ []) :
    rawOutcome (keys.map fun _ => "purged".toList) = "purged".toList := by
  obtain ⟨k, hk⟩ := List.exists_mem_of_ne_nil _ h
  have hfilter : ((keys.map fun _ => "purged".toList).filter fun outcome => !isConfirmed outcome) = [] := by
    rw [List.filter_eq_nil_iff]
    intro outcome houtcome
    obtain ⟨-, -, rfl⟩ := List.mem_map.1 houtcome
    decide
  rw [rawOutcome, hfilter]
  exact if_pos (List.mem_map_of_mem (f := fun _ => "purged".toList) hk)

theorem itemKeys_ne_nil {repo : RepoConfig} {filename : Str} {keys : List Str}
    (h : itemKeys lower config db repo filename = .ok keys) : keys ≠ [] := by
  unfold itemKeys at h
  split at h
  · obtain ⟨redirects, -, h⟩ := bind_eq_ok.1 h
    obtain ⟨builder, -, h⟩ := bind_eq_ok.1 h
    obtain ⟨keyFor, -, h⟩ := bind_eq_ok.1 h
    cases h
    exact List.ne_nil_of_mem (mem_fromkeys.2 List.mem_cons_self)
  · obtain ⟨key, -, h⟩ := bind_eq_ok.1 h
    cases h
    exact List.cons_ne_nil _ _

/-- **A sweep without a failure** evicts what a purge of a stale record touches. -/
theorem exists_sweepRun (db : Database) (hplain : ∀ repo ∈ config.repos, repo.type ≠ .nix)
    (hpurge : config.nginx.enablePurge = true)
    (hrouted : config.nginx.enableCacheProbe = true → ∃ routes, computeRoutes config = .ok routes) :
    ∃ run : SweepRun lower config db, ∀ repo removed, Stale db config repo removed → ∀ owner filename,
      Touches lower config db (itemKeys lower config db repo removed) (packagePath repo removed) owner filename →
      run.Evicts owner filename := by
  obtain ⟨log, result, hexecuted, hall⟩ := Program.exists_executed exists_answer
    (Pass.removed config db.staleKeys).program db
  refine ⟨⟨hplain, hpurge, hrouted, log, result, hexecuted, fun _ _ _ => "purged".toList, ?_⟩, ?_⟩
  · intro repo items results hmem key filename keys hitem hkeys
    rw [hall _ hmem repo items results rfl key filename hitem]
    exact congrArg some (rawOutcome_purged (itemKeys_ne_nil hkeys)).symm
  rintro repo _ ⟨w, hw, hunlisted, hrepo, rfl⟩ owner filename htouches
  have hlawful := Pass.lawful hexecuted.1
  have hended : (Pass.removed config db.staleKeys).Ended log := by
    have := (Pass.removed config db.staleKeys).meets.ended hexecuted.1
    rwa [List.nil_append] at this
  have hread : Read log w.repoId w := by
    obtain ⟨keys, cutoff, answer, hmem, hkey⟩ := hended.asked hpurge w.pk (mem_staleKeys.2 ⟨w, hw, hunlisted, rfl⟩)
      (by rw [WarmedRow.pk]; exact hrepo ▸ Option.some_ne_none repo)
    obtain ⟨before, after, rfl⟩ := List.append_of_mem hmem
    obtain ⟨s₁, s₂, hbefore, hstep, -⟩ := Run.step_of_mem hexecuted.2
    obtain ⟨hanswer, -⟩ : answer = s₁.warmedRows w.repoId keys cutoff ∧ s₂ = s₁ := hstep
    have hcutoff : (Pass.removed config db.staleKeys).Allowed before (.read w.repoId keys cutoff) :=
      hlawful before _ answer after rfl
    obtain rfl : cutoff = none := hcutoff.1
    rcases mem_or_read hbefore hw (Lawful.left hlawful) with hin | hread
    · refine ⟨keys, none, answer, hmem, ?_⟩
      rw [hanswer]
      refine List.mem_filter.2 ⟨hin, ?_⟩
      simpa [WarmedRow.pk] using hkey
    · exact read_append.2 (.inl hread)
  obtain ⟨items, results, hmem, hitem⟩ := hended.settled.captured w.repoId w repo hread hrepo
  refine ⟨repo, items, w.packageKey, w.filename, results, hmem, hitem, ?_⟩
  rcases htouches with hpath | ⟨keys, k, hkeys, hk, hfile⟩
  · exact .inl ⟨hall _ hmem repo items results rfl _ _ hitem, hpath⟩
  · exact .inr ⟨keys, k, hkeys, hk, rfl, hfile⟩

/-- Every run of the sweep is truthful exactly when the purges of stale records spare the packages that are warm. -/
theorem truthful_sweepRun_iff (hplain : ∀ repo ∈ config.repos, repo.type ≠ .nix) :
    (∀ run : SweepRun lower config db, Truthful config run.result run.Evicts) ↔
      (config.nginx.enablePurge = true →
        (config.nginx.enableCacheProbe = true → ∃ routes, computeRoutes config = .ok routes) →
        ∀ repo removed, Stale db config repo removed → Spares config db (fun p => db.WarmOk p.pk)
          (Touches lower config db (itemKeys lower config db repo removed) (packagePath repo removed))) := by
  constructor
  · intro h hpurge hrouted repo removed hstale owner howner p hp htouches hwarm
    obtain ⟨run, hevicts⟩ : ∃ run : SweepRun lower config db, _ := exists_sweepRun db hplain hpurge hrouted
    have hlisted := (mem_packagesOf_congr run.answers.repoPackages owner.id p).2 hp
    exact h run owner howner p hlisted (hevicts repo removed hstale owner p.filename htouches)
      (run.warmOk (Database.mem_packagesOf.1 hp).1 hwarm)
  · rintro h run owner howner p hp hevicts ⟨row, hrow, hok⟩
    obtain ⟨repo, removed, hstale, htouches⟩ := run.touches_of_evicts hevicts
    have hlisted := (mem_packagesOf_congr run.answers.repoPackages owner.id p).1 hp
    refine h run.enabled run.routed repo removed hstale owner howner p hlisted htouches ⟨row, ?_, hok⟩
    exact (Table.key_of_get hrow) ▸ Table.get_of_mem (run.answers.mem row (Table.mem_of_get hrow))

end Sweep

def ubuntu : RepoConfig := aptRepo "a" "http://h/ubuntu"

def ubuntuContext (interested : String) : RefreshContext where
  config :=
    { checkInterval := 3600
      cacheBaseUrl := "http://127.0.0.1:8080".toList
      repos := [ubuntu]
      nginx := { enablePurge := true, indexTtl := 120 }
      idsNodup := by decide
      versionOk := by decide }
  repo := ubuntu
  interested := [interested.toList]
  allows := fun _ => true

def fooFile : Str := "pool/main/foo_2.0.deb".toList

/-- The catalog lists one package, which is warm. -/
def ubuntuWarm : Database :=
  ((Database.empty.recordSnapshot (.listing "a" [("foo-1:2.0", "pool/main/foo_2.0.deb", none)]) { now := [] } id
    ).1).recordWarmedPackage "a".toList "foo-1:2.0".toList fooFile true (some 200) "prefetch".toList [] "0".toList

def debian : RepoConfig := aptRepo "b" "http://h/debian"

/-- Two repositories whose equal files are shared, in a cache that can be probed. -/
def mirrorContext : RefreshContext where
  config :=
    { checkInterval := 3600
      cacheBaseUrl := "http://127.0.0.1:8080".toList
      repos := [ubuntu, debian]
      nginx := { enablePurge := true, enableDedup := true, enableCacheProbe := true, indexTtl := 120 }
      idsNodup := by decide
      versionOk := by decide }
  repo := debian
  interested := ["bar-1".toList]
  allows := fun _ => true

/-- Both list the same bytes, the second under an epoch that its stale record does not have. -/
def mirrorWarm : Database :=
  let listed := (((Database.empty.recordSnapshot (.listing "a" [("foo-1:2.0", "pool/main/foo_2.0.deb", some "11")])
    { now := [] } id).1).recordSnapshot (.listing "b" [("foo-2:2.0", "pool/main/foo_2.0.deb", some "11")])
    { now := [] } id).1
  (listed.recordWarmedPackage "a".toList "foo-1:2.0".toList fooFile true (some 200) "prefetch".toList [] "0".toList
    ).recordWarmedPackage "b".toList "foo-1:2.0".toList fooFile true (some 200) "prefetch".toList [] "1".toList

end RepoWatch
