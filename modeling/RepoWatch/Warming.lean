import RepoWatch.Lib.Gather
import RepoWatch.Lib.Glob
import RepoWatch.CacheWork
import RepoWatch.Demand
import RepoWatch.Fingerprint
import RepoWatch.NixWarm
import RepoWatch.Notifications
/-!
# Warming — packages that are warmed together

`_warm_cache` selects packages and downloads them under a semaphore, while the rest of the service goes on: the store and
the scheduler's repositories may change between any two steps.  Whatever the order, a package is attempted at most once and
only if the policy allows it (`warm_exact`), an opt-out stops what has not begun (`warm_opt_out`), and the records are the
ones that warming the packages one after another leaves (`warm_sequential`).
-/
namespace RepoWatch

open Lib

/-! ## The policy -/

/-- The fields of a repository entry that the warming policy reads. -/
structure WarmingRules where
  prefetchWhitelist : List Str
  prefetchBlacklist : List Str

/-- `WarmingPolicy`: the patterns, the banned names, and the names of the catalog. -/
structure WarmingPolicy where
  whitelist : List (List Glob.Piece)
  blacklist : List (List Glob.Piece)
  banned : List Str
  names : Str → Option Str

namespace WarmingPolicy

def filtered (policy : WarmingPolicy) : Bool :=
  !policy.whitelist.isEmpty || !policy.blacklist.isEmpty || !policy.banned.isEmpty

/-- `banned` is what `get_banned_packages` answers; the names are only read for a policy that filters. -/
def new (db : Database) (repo : RepoConfig) (rules : WarmingRules) (banned : List Str) : WarmingPolicy :=
  let policy : WarmingPolicy :=
    ⟨rules.prefetchWhitelist.map Glob.parse, rules.prefetchBlacklist.map Glob.parse, banned, fun _ => none⟩
  if policy.filtered then { policy with names := db.storedName repo.id } else policy

def allows (policy : WarmingPolicy) (packageKey : Str) : Bool :=
  if !policy.filtered then true
  else match policy.names packageKey with
    | none => false
    | some name =>
      if name = [] ∨ name ∈ policy.banned then false
      else !policy.blacklist.any (fun p => Glob.fullMatch p name) &&
        (policy.whitelist.isEmpty || policy.whitelist.any fun p => Glob.fullMatch p name)

/-- The whole name is cut into one part for each piece of the pattern. -/
def Matches (pattern name : Str) : Prop :=
  ∃ parts, name = parts.flatten ∧ List.Forall₂ Glob.Piece.Covers (Glob.parse pattern) parts

variable {db : Database} {repo : RepoConfig} {rules : WarmingRules} {banned : List Str} {key : Str}

theorem filtered_new : (new db repo rules banned).filtered = true ↔
    rules.prefetchWhitelist ≠ [] ∨ rules.prefetchBlacklist ≠ [] ∨ banned ≠ [] := by
  unfold new
  dsimp only
  split <;> simp [filtered, or_assoc]

theorem allows_of_filtered {policy : WarmingPolicy} (h : policy.filtered = true) : policy.allows key = true ↔
    ∃ name, policy.names key = some name ∧ name ≠ [] ∧ name ∉ policy.banned ∧
      (∀ p ∈ policy.blacklist, Glob.fullMatch p name = false) ∧
      (policy.whitelist = [] ∨ ∃ p ∈ policy.whitelist, Glob.fullMatch p name = true) := by
  unfold allows
  rw [h, Bool.not_true, if_neg Bool.false_ne_true]
  cases policy.names key with
  | none => simp
  | some name =>
    by_cases hn : name = [] ∨ name ∈ policy.banned
    · rcases hn with hn | hn <;> simp [hn]
    · obtain ⟨hne, hnb⟩ := not_or.1 hn
      simp [hne, hnb]

/-- **What the policy allows**: everything when there are no rules, and otherwise a package whose catalog name is not banned,
matches no pattern of the blacklist, and matches one of the whitelist unless that is empty. -/
theorem allows_new : (new db repo rules banned).allows key = true ↔
    (rules.prefetchWhitelist = [] ∧ rules.prefetchBlacklist = [] ∧ banned = []) ∨
    ∃ name, db.storedName repo.id key = some name ∧ name ≠ [] ∧ name ∉ banned ∧
      (∀ p ∈ rules.prefetchBlacklist, ¬ Matches p name) ∧
      (rules.prefetchWhitelist = [] ∨ ∃ p ∈ rules.prefetchWhitelist, Matches p name) := by
  by_cases hf : (new db repo rules banned).filtered = true
  · have hnone : ¬ (rules.prefetchWhitelist = [] ∧ rules.prefetchBlacklist = [] ∧ banned = []) := by
      rintro ⟨h1, h2, h3⟩
      simpa [h1, h2, h3] using filtered_new.1 hf
    rw [or_iff_right hnone, allows_of_filtered hf]
    unfold new at hf ⊢
    dsimp only at hf ⊢
    split at hf
    · rename_i h
      rw [if_pos h]
      simp [Matches, ← Glob.fullMatch_iff]
    · rename_i h
      exact absurd hf h
  · have hnone : rules.prefetchWhitelist = [] ∧ rules.prefetchBlacklist = [] ∧ banned = [] := by
      simpa [filtered_new, not_or] using hf
    refine iff_of_true ?_ (Or.inl hnone)
    unfold allows
    simp [Bool.eq_false_iff.2 hf]

end WarmingPolicy

/-! ## The run -/

structure WarmTask where
  key : Str
  filename : Str
  url : Str
  deriving DecidableEq

/-- What a call of `_warm_cache` for a repository that is not a Nix one has been given. -/
structure WarmContext where
  config : Config
  repo : RepoConfig
  notNix : repo.type ≠ .nix
  policy : WarmingPolicy
  force : Bool
  prefetchConcurrency : Nat
  expectedHashes : Dict Str Str

/-- The store, the repositories that the scheduler warms, the tasks, and what the call has noted so far. -/
structure WarmRun where
  store : DemandStore
  automaticWarmRepos : Option (Dict Str RepoConfig)
  gather : Gather WarmTask (Option Attempt)
  outcomes : Dict Str Bool
  failedKeys : List Str

inductive WarmEvent where
  | acquire (task : WarmTask)
  | respond (task : WarmTask) (response : Response) (now revision : Str)
  -- whatever else goes on in the service
  | other (store : DemandStore) (automaticWarmRepos : Option (Dict Str RepoConfig))

/-- An action of the call itself. -/
def WarmEvent.isOwn : WarmEvent → Bool
  | acquire _ => true
  | respond .. => true
  | other .. => false

section
variable (sha256 : Bytes → Vector UInt8 32)

/-- `ServiceState.automatic_warm_enabled`. -/
def automaticWarmEnabled (repos : Option (Dict Str RepoConfig)) (repo : RepoConfig) : Bool :=
  let current := match repos with
    | none => some repo
    | some repos => repos.lookup repo.id
  current.any fun current => current.prefetch && decide (catalogIdentity (hexdigest sha256) current.toRepoFields =
    catalogIdentity (hexdigest sha256) repo.toRepoFields)

namespace WarmContext
variable (c : WarmContext)

/-- The selected packages with their addresses. -/
def tasks (newPackages : Dict Str Str) : List WarmTask :=
  newPackages.rows.filterMap fun (key, filename) =>
    if filename = [] then none
    else if !c.policy.allows key then none
    else some ⟨key, filename, warmUrl c.config c.repo filename⟩

/-- The tasks that are gathered: none where the repository is not warmed automatically. -/
def gathered (newPackages : Dict Str Str) : List WarmTask :=
  if !c.force && !c.repo.prefetch then [] else c.tasks newPackages

def start (newPackages : Dict Str Str) (store : DemandStore) (repos : Option (Dict Str RepoConfig)) : WarmRun :=
  let tasks := c.gathered newPackages
  let store := if c.force && !tasks.isEmpty then
      store.recordInterest c.repo.id (tasks.map WarmTask.key) (catalogIdentity (hexdigest sha256) c.repo.toRepoFields)
    else store
  ⟨store, repos, .ofTasks tasks, .empty, []⟩

/-- `download_package` for a task, under the hash that is expected of its package if one is. -/
def download (task : WarmTask) (response : Response) : Bool × Option Int :=
  downloadPackage sha256 (c.expectedHashes.lookup task.key) none response

def attempt (task : WarmTask) (response : Response) (now revision : Str) : Attempt :=
  ⟨(c.download sha256 task response).1, (c.download sha256 task response).2, now, revision⟩

/-- What `_run` notes after an attempt. -/
def note (s : WarmRun) (task : WarmTask) (attempt : Attempt) (gather : Gather WarmTask (Option Attempt)) : WarmRun :=
  { s with
    store := { s.store with db := s.store.db.recordAttempt c.repo.id task.key task.filename (some attempt) }
    gather := gather
    outcomes := s.outcomes.set task.key attempt.ok
    failedKeys := if attempt.ok then s.failedKeys else s.failedKeys ++ [task.key] }

def step (s : WarmRun) : WarmEvent → Option WarmRun
  | .acquire task =>
    if !c.force && !automaticWarmEnabled sha256 s.automaticWarmRepos c.repo then
      (s.gather.step c.prefetchConcurrency (.skip task none)).map fun g => { s with gather := g }
    else (s.gather.step c.prefetchConcurrency (.start task)).map fun g => { s with gather := g }
  | .respond task response now revision =>
    let attempt := c.attempt sha256 task response now revision
    (s.gather.step c.prefetchConcurrency (.finish task (some attempt))).map (c.note s task attempt)
  | .other store repos => some { s with store := store, automaticWarmRepos := repos }

abbrev Runs : WarmRun → List WarmEvent → WarmRun → Prop := Run fun s a s' => c.step sha256 s a = some s'

end WarmContext
end

/-! ## Steps of the run and of the gather -/

namespace WarmContext
variable {sha256 : Bytes → Vector UInt8 32} {c : WarmContext} {newPackages : Dict Str Str} {store : DemandStore}
  {repos : Option (Dict Str RepoConfig)} {s s' : WarmRun} {as : List WarmEvent} {task : WarmTask}

theorem mem_tasks : task ∈ c.tasks newPackages ↔ (task.key, task.filename) ∈ newPackages.rows ∧ task.filename ≠ [] ∧
    c.policy.allows task.key = true ∧ task.url = warmUrl c.config c.repo task.filename := by
  unfold tasks
  rw [List.mem_filterMap]
  constructor
  · rintro ⟨⟨key, filename⟩, hrow, h⟩
    dsimp only at h
    split at h
    · cases h
    · rename_i hne
      split at h
      · cases h
      · rename_i hallows
        cases h
        exact ⟨hrow, hne, by simpa using hallows, rfl⟩
  · rintro ⟨hrow, hne, hallows, hurl⟩
    refine ⟨_, hrow, ?_⟩
    dsimp only
    rw [if_neg hne, if_neg (by simp [hallows]), ← hurl]

theorem keys_tasks_nodup : ((c.tasks newPackages).map WarmTask.key).Nodup := by
  have hsub : ((c.tasks newPackages).map WarmTask.key).Sublist (newPackages.rows.map Prod.fst) := by
    unfold tasks
    induction newPackages.rows with
    | nil => exact .refl []
    | cons row rows ih =>
      obtain ⟨key, filename⟩ := row
      rw [List.filterMap_cons]
      dsimp only
      split
      · exact ih.cons _
      · rename_i task h
        split at h
        · cases h
        · split at h
          · cases h
          · cases h
            exact ih.cons_cons _
  exact hsub.nodup newPackages.keysNodup

theorem keys_gathered_nodup : ((c.gathered newPackages).map WarmTask.key).Nodup := by
  unfold gathered
  split
  · exact List.nodup_nil
  · exact keys_tasks_nodup

theorem acquire_eq (hon : c.force = true ∨ automaticWarmEnabled sha256 s.automaticWarmRepos c.repo = true) :
    c.step sha256 s (.acquire task) =
      (s.gather.step c.prefetchConcurrency (.start task)).map fun g => { s with gather := g } := by
  refine if_neg ?_
  rcases hon with hon | hon <;> simp [hon]

theorem step_acquire (h : c.step sha256 s (.acquire task) = some s') :
    (c.force = false ∧ automaticWarmEnabled sha256 s.automaticWarmRepos c.repo = false ∧
      ∃ g, s.gather.step c.prefetchConcurrency (.skip task none) = some g ∧ s' = { s with gather := g }) ∨
    ((c.force = true ∨ automaticWarmEnabled sha256 s.automaticWarmRepos c.repo = true) ∧
      ∃ g, s.gather.step c.prefetchConcurrency (.start task) = some g ∧ s' = { s with gather := g }) := by
  simp only [step] at h
  split at h
  · rename_i hskip
    obtain ⟨g, hg, rfl⟩ := Option.map_eq_some_iff.1 h
    obtain ⟨hforce, hoff⟩ : c.force = false ∧ automaticWarmEnabled sha256 s.automaticWarmRepos c.repo = false := by
      simpa using hskip
    exact Or.inl ⟨hforce, hoff, g, hg, rfl⟩
  · rename_i hgo
    obtain ⟨g, hg, rfl⟩ := Option.map_eq_some_iff.1 h
    refine Or.inr ⟨?_, g, hg, rfl⟩
    by_cases hforce : c.force = true
    · exact Or.inl hforce
    · exact Or.inr (by simpa [hforce] using hgo)

theorem step_respond {response : Response} {now revision : Str}
    (h : c.step sha256 s (.respond task response now revision) = some s') :
    ∃ g, s.gather.step c.prefetchConcurrency (.finish task (some (c.attempt sha256 task response now revision))) = some g ∧
      s' = c.note s task (c.attempt sha256 task response now revision) g := by
  obtain ⟨g, hg, rfl⟩ := Option.map_eq_some_iff.1 h
  exact ⟨g, hg, rfl⟩

theorem step_other {store' : DemandStore} {repos' : Option (Dict Str RepoConfig)}
    (h : c.step sha256 s (.other store' repos') = some s') : s' = { s with store := store', automaticWarmRepos := repos' } :=
  (Option.some.inj h).symm

/-- **A run of the call is a run of its gather**, with one step for each action of its own. -/
theorem gather_runs (h : c.Runs sha256 s as s') : ∃ gs, Gather.Runs c.prefetchConcurrency s.gather gs s'.gather ∧
    gs.length = (as.filter WarmEvent.isOwn).length := by
  induction h with
  | nil => exact ⟨[], .nil _, rfl⟩
  | @snoc s₁ s₂ as a _ hs ih =>
    obtain ⟨gs, hrun, hlen⟩ := ih
    rw [List.filter_append, List.length_append, ← hlen]
    cases a with
    | acquire task =>
      rcases step_acquire hs with ⟨-, -, g, hg, rfl⟩ | ⟨-, g, hg, rfl⟩
      · exact ⟨gs ++ [_], .snoc hrun hg, by simp [List.filter, WarmEvent.isOwn]⟩
      · exact ⟨gs ++ [_], .snoc hrun hg, by simp [List.filter, WarmEvent.isOwn]⟩
    | respond task response now revision =>
      obtain ⟨g, hg, rfl⟩ := step_respond hs
      exact ⟨gs ++ [_], .snoc hrun hg, by simp [List.filter, WarmEvent.isOwn]⟩
    | other store repos =>
      obtain rfl := step_other hs
      exact ⟨gs, hrun, by simp [List.filter, WarmEvent.isOwn]⟩

theorem accounted (h : c.Runs sha256 (c.start sha256 newPackages store repos) as s) :
    Gather.Accounted c.prefetchConcurrency (c.gathered newPackages) s.gather := by
  obtain ⟨gs, hrun, -⟩ := gather_runs h
  exact Gather.accounted hrun

/-! ## What is reported -/

/-- A package is attempted when its task is answered. -/
def Answered (sha256 : Bytes → Vector UInt8 32) (c : WarmContext) (as : List WarmEvent) (task : WarmTask) (a : Attempt) :
    Prop :=
  ∃ response now revision, .respond task response now revision ∈ as ∧ a = c.attempt sha256 task response now revision

/-- The turn of a task came when automatic warming was off. -/
def FoundOff (sha256 : Bytes → Vector UInt8 32) (c : WarmContext) (s₀ : WarmRun) (as : List WarmEvent) (task : WarmTask) :
    Prop :=
  c.force = false ∧ ∃ before s after, as = before ++ .acquire task :: after ∧ c.Runs sha256 s₀ before s ∧
    automaticWarmEnabled sha256 s.automaticWarmRepos c.repo = false

theorem FoundOff.append {s₀ : WarmRun} (h : FoundOff sha256 c s₀ as task) (bs : List WarmEvent) :
    FoundOff sha256 c s₀ (as ++ bs) task := by
  obtain ⟨hforce, before, s, after, rfl, hrun, hoff⟩ := h
  exact ⟨hforce, before, s, after ++ bs, by simp, hrun, hoff⟩

/-- What has come of the tasks that are over: an answer to a download, or a switch that was off. -/
theorem mem_finished (h : c.Runs sha256 (c.start sha256 newPackages store repos) as s) {r : Option Attempt}
    (hmem : (task, r) ∈ s.gather.finished) : (∃ a, r = some a ∧ Answered sha256 c as task a) ∨
      (r = none ∧ FoundOff sha256 c (c.start sha256 newPackages store repos) as task) := by
  induction h generalizing task r with
  | nil => cases hmem
  | @snoc s₁ s₂ as a hrun hs ih =>
    have hkeep : ∀ {task r}, (task, r) ∈ s₁.gather.finished → (∃ b, r = some b ∧ Answered sha256 c (as ++ [a]) task b) ∨
        (r = none ∧ FoundOff sha256 c (c.start sha256 newPackages store repos) (as ++ [a]) task) := by
      intro task r hold
      rcases ih hold with ⟨b, hb, response, now, revision, hin, heq⟩ | ⟨hr, hfound⟩
      · exact Or.inl ⟨b, hb, response, now, revision, List.mem_append_left _ hin, heq⟩
      · exact Or.inr ⟨hr, hfound.append _⟩
    cases a with
    | acquire t =>
      rcases step_acquire hs with ⟨hforce, hoff, g, hg, rfl⟩ | ⟨-, g, hg, rfl⟩
      · obtain ⟨-, rfl⟩ := Gather.step_skip hg
        rcases List.mem_append.1 hmem with hold | hnew
        · exact hkeep hold
        · cases List.mem_singleton.1 hnew
          exact Or.inr ⟨rfl, hforce, as, s₁, [], rfl, hrun, hoff⟩
      · obtain ⟨-, rfl⟩ := Gather.step_start hg
        exact hkeep hmem
    | respond t response now revision =>
      obtain ⟨g, hg, rfl⟩ := step_respond hs
      obtain ⟨-, rfl⟩ := Gather.step_finish hg
      rcases List.mem_append.1 hmem with hold | hnew
      · exact hkeep hold
      · cases List.mem_singleton.1 hnew
        exact Or.inl ⟨_, rfl, response, now, revision, by simp, rfl⟩
    | other store repos =>
      obtain rfl := step_other hs
      exact hkeep hmem

/-- The outcomes and the failed keys that the results of a gather come to. -/
def outcomesOf (finished : List (WarmTask × Option Attempt)) : List (Str × Bool) :=
  finished.filterMap fun f => f.2.map fun a => (f.1.key, a.ok)

def failuresOf (finished : List (WarmTask × Option Attempt)) : List Str :=
  finished.filterMap fun f => f.2.bind fun a => if a.ok then none else some f.1.key

theorem mem_outcomesOf {finished : List (WarmTask × Option Attempt)} {key : Str} {ok : Bool} :
    (key, ok) ∈ outcomesOf finished ↔ ∃ task a, (task, some a) ∈ finished ∧ task.key = key ∧ a.ok = ok := by
  unfold outcomesOf
  simp only [List.mem_filterMap, Option.map_eq_some_iff, Prod.mk.injEq, Prod.exists]
  constructor
  · rintro ⟨task, r, hmem, a, rfl, hkey, hok⟩
    exact ⟨task, a, hmem, hkey, hok⟩
  · rintro ⟨task, a, hmem, hkey, hok⟩
    exact ⟨task, some a, hmem, a, rfl, hkey, hok⟩

theorem keys_finished_nodup (h : c.Runs sha256 (c.start sha256 newPackages store repos) as s) :
    (s.gather.finished.map fun f => f.1.key).Nodup := by
  have hperm := ((accounted h).perm.map WarmTask.key).nodup_iff.2 keys_gathered_nodup
  rw [List.map_append, List.map_map] at hperm
  exact (List.nodup_append.1 hperm).2.1

/-- **What a run has noted is what has come of its tasks.** -/
theorem noted (h : c.Runs sha256 (c.start sha256 newPackages store repos) as s) :
    s.outcomes.rows = outcomesOf s.gather.finished ∧ s.failedKeys = failuresOf s.gather.finished := by
  induction h with
  | nil => exact ⟨rfl, rfl⟩
  | @snoc s₁ s₂ as a hrun hs ih =>
    obtain ⟨hout, hfail⟩ := ih
    cases a with
    | acquire t =>
      rcases step_acquire hs with ⟨-, -, g, hg, rfl⟩ | ⟨-, g, hg, rfl⟩
      · obtain ⟨-, rfl⟩ := Gather.step_skip hg
        simp [hout, hfail, outcomesOf, failuresOf]
      · obtain ⟨-, rfl⟩ := Gather.step_start hg
        exact ⟨hout, hfail⟩
    | respond t response now revision =>
      have hnodup := keys_finished_nodup (Run.snoc hrun hs)
      obtain ⟨g, hg, rfl⟩ := step_respond hs
      obtain ⟨-, rfl⟩ := Gather.step_finish hg
      have hnew : s₁.outcomes.get t.key = none := by
        rw [Table.get_eq_none_iff, hout]
        rintro ⟨key, ok⟩ hmem rfl
        obtain ⟨task, a, hin, hkey, -⟩ := mem_outcomesOf.1 hmem
        have hdisj := (List.nodup_append.1 (by simpa [note] using hnodup)).2.2
        exact hdisj t.key (List.mem_map.2 ⟨_, hin, hkey⟩) t.key (by simp) rfl
      refine ⟨?_, ?_⟩
      · show (s₁.outcomes.upsert (t.key, _)).rows = _
        rw [Table.rows_upsert hnew, hout]
        simp [note, outcomesOf]
      · simp only [note, hfail, failuresOf, List.filterMap_append]
        split <;> simp [*]
    | other store repos =>
      obtain rfl := step_other hs
      exact ⟨hout, hfail⟩

theorem lookup_outcomes (h : c.Runs sha256 (c.start sha256 newPackages store repos) as s) {key : Str} {ok : Bool} :
    s.outcomes.lookup key = some ok ↔ ∃ task a, (task, some a) ∈ s.gather.finished ∧ task.key = key ∧ a.ok = ok := by
  rw [Dict.lookup_eq_some_iff, (noted h).1, mem_outcomesOf]

theorem mem_failedKeys (h : c.Runs sha256 (c.start sha256 newPackages store repos) as s) {key : Str} :
    key ∈ s.failedKeys ↔ s.outcomes.lookup key = some false := by
  rw [lookup_outcomes h, (noted h).2, failuresOf]
  simp only [List.mem_filterMap, Option.bind_eq_some_iff, Prod.exists]
  constructor
  · rintro ⟨task, r, hmem, a, rfl, ha⟩
    split at ha
    · cases ha
    · rename_i hok
      exact ⟨task, a, hmem, Option.some.inj ha, by simpa using hok⟩
  · rintro ⟨task, a, hmem, rfl, hok⟩
    exact ⟨task, some a, hmem, a, rfl, by simp [hok]⟩

/-- A task that was answered is over. -/
theorem finished_of_answered (h : c.Runs sha256 (c.start sha256 newPackages store repos) as s) {response : Response}
    {now revision : Str} (hmem : .respond task response now revision ∈ as) :
    (task, some (c.attempt sha256 task response now revision)) ∈ s.gather.finished := by
  induction h with
  | nil => cases hmem
  | @snoc s₁ s₂ as a hrun hs ih =>
    have hgrow : ∀ f ∈ s₁.gather.finished, f ∈ s₂.gather.finished := by
      intro f hf
      cases a with
      | acquire t =>
        rcases step_acquire hs with ⟨-, -, g, hg, rfl⟩ | ⟨-, g, hg, rfl⟩
        · obtain ⟨-, rfl⟩ := Gather.step_skip hg
          exact List.mem_append_left _ hf
        · obtain ⟨-, rfl⟩ := Gather.step_start hg
          exact hf
      | respond t response now revision =>
        obtain ⟨g, hg, rfl⟩ := step_respond hs
        obtain ⟨-, rfl⟩ := Gather.step_finish hg
        exact List.mem_append_left _ hf
      | other store repos =>
        obtain rfl := step_other hs
        exact hf
    rcases List.mem_append.1 hmem with hold | hnew
    · exact hgrow _ (ih hold)
    · cases List.mem_singleton.1 hnew
      obtain ⟨g, hg, rfl⟩ := step_respond hs
      obtain ⟨-, rfl⟩ := Gather.step_finish hg
      exact List.mem_append_right _ (List.mem_singleton_self _)

/-- What holds after any run of a call, however its tasks and the rest of the service take turns. -/
structure Exact (sha256 : Bytes → Vector UInt8 32) (c : WarmContext) (newPackages : Dict Str Str) (s₀ : WarmRun)
    (as : List WarmEvent) (s : WarmRun) : Prop where
  /-- No more than the permits are downloading, and each package once at most. -/
  bounded : s.gather.running.length ≤ c.prefetchConcurrency
  once : ∀ key, (as.filter fun a => match a with | .respond task _ _ _ => task.key == key | _ => false).length ≤ 1
  /-- An outcome is that of a download of a selected package that the policy allows. -/
  outcome : ∀ key ok, s.outcomes.lookup key = some ok ↔ ∃ filename response now revision,
    (key, filename) ∈ newPackages.rows ∧ filename ≠ [] ∧ c.policy.allows key = true ∧
    .respond ⟨key, filename, warmUrl c.config c.repo filename⟩ response now revision ∈ as ∧
    (c.download sha256 ⟨key, filename, warmUrl c.config c.repo filename⟩ response).1 = ok
  failed : ∀ key, key ∈ s.failedKeys ↔ s.outcomes.lookup key = some false
  /-- When it is over, a gathered package has an outcome, or warming was off when its turn came and the call is not forced. -/
  settled : s.gather.Over → ∀ task ∈ c.gathered newPackages,
    (∃ ok, s.outcomes.lookup task.key = some ok) ∨ FoundOff sha256 c s₀ as task
  /-- It can go on until it is over, which takes two of its own steps a package at most. -/
  goesOn : 0 < c.prefetchConcurrency → ¬ s.gather.Over → ∃ a s', a.isOwn = true ∧ c.step sha256 s a = some s'
  short : (as.filter WarmEvent.isOwn).length ≤ 2 * (c.gathered newPackages).length

/-- An own step of the call, for each step that its gather can take. -/
theorem exists_own_step (hn : 0 < c.prefetchConcurrency) (hover : ¬ s.gather.Over) :
    ∃ a s', a.isOwn = true ∧ c.step sha256 s a = some s' := by
  rcases Gather.exists_step hn hover with ⟨task, -, hfinish⟩ | ⟨task, hw, hstart⟩
  · obtain ⟨g, hg⟩ := Option.isSome_iff_exists.1 (hfinish (some (c.attempt sha256 task .lost [] [])))
    exact ⟨.respond task .lost [] [], _, rfl, by simp only [step, hg, Option.map_some]; rfl⟩
  · obtain ⟨g, hg⟩ := Option.isSome_iff_exists.1 hstart
    obtain ⟨hready, -⟩ := Gather.step_start hg
    refine ⟨.acquire task, ?_⟩
    by_cases hon : c.force = true ∨ automaticWarmEnabled sha256 s.automaticWarmRepos c.repo = true
    · exact ⟨_, rfl, by rw [acquire_eq hon, hg]; rfl⟩
    · have hskip : (!c.force && !automaticWarmEnabled sha256 s.automaticWarmRepos c.repo) = true := by
        simpa [not_or] using hon
      exact ⟨_, rfl, by simp only [step, if_pos hskip, Gather.step, if_pos hready, Option.map_some]; rfl⟩

theorem gathered_subset (h : task ∈ c.gathered newPackages) : task ∈ c.tasks newPackages := by
  unfold gathered at h
  split at h
  · cases h
  · exact h

theorem eq_of_mem_tasks (h : task ∈ c.tasks newPackages) :
    task = ⟨task.key, task.filename, warmUrl c.config c.repo task.filename⟩ := by
  obtain ⟨-, -, -, hurl⟩ := mem_tasks.1 h
  cases task
  simpa using hurl

/-- The tasks that are over were gathered. -/
theorem mem_gathered_of_finished (h : c.Runs sha256 (c.start sha256 newPackages store repos) as s) {r : Option Attempt}
    (hmem : (task, r) ∈ s.gather.finished) : task ∈ c.gathered newPackages :=
  (accounted h).perm.mem_iff.1 (List.mem_append_right _ (List.mem_map.2 ⟨_, hmem, rfl⟩))

theorem once_of_run (h : c.Runs sha256 (c.start sha256 newPackages store repos) as s) (key : Str) :
    (as.filter fun a => match a with | .respond task _ _ _ => task.key == key | _ => false).length ≤
      (s.gather.finished.map fun f => f.1.key).count key := by
  induction h with
  | nil => exact Nat.zero_le _
  | @snoc s₁ s₂ as a hrun hs ih =>
    rw [List.filter_append, List.length_append]
    cases a with
    | acquire t =>
      rcases step_acquire hs with ⟨-, -, g, hg, rfl⟩ | ⟨-, g, hg, rfl⟩
      · obtain ⟨-, rfl⟩ := Gather.step_skip hg
        simp only [List.map_append, List.count_append]
        simpa using Nat.le_add_right_of_le ih
      · obtain ⟨-, rfl⟩ := Gather.step_start hg
        simpa using ih
    | respond t response now revision =>
      obtain ⟨g, hg, rfl⟩ := step_respond hs
      obtain ⟨-, rfl⟩ := Gather.step_finish hg
      simp only [note, List.map_append, List.count_append]
      refine Nat.add_le_add ih ?_
      by_cases hkey : t.key = key <;> simp [hkey]
    | other store repos =>
      obtain rfl := step_other hs
      simpa using ih

/-- **A warm is exact**, in every interleaving. -/
theorem warm_exact (h : c.Runs sha256 (c.start sha256 newPackages store repos) as s) :
    Exact sha256 c newPackages (c.start sha256 newPackages store repos) as s := by
  have hacc := accounted h
  refine ⟨hacc.bound, fun key => ?_, fun key ok => ?_, fun key => mem_failedKeys h, fun hover task htask => ?_,
    exists_own_step, ?_⟩
  · exact (once_of_run h key).trans (List.nodup_iff_count_le_one.1 (keys_finished_nodup h) key)
  · rw [lookup_outcomes h]
    constructor
    · rintro ⟨task, a, hmem, rfl, rfl⟩
      have htask := gathered_subset (mem_gathered_of_finished h hmem)
      obtain ⟨hrow, hne, hallows, -⟩ := mem_tasks.1 htask
      rcases mem_finished h hmem with ⟨b, hb, response, now, revision, hin, hattempt⟩ | ⟨hnone, -⟩
      · cases hb
        rw [eq_of_mem_tasks htask] at hin
        refine ⟨task.filename, response, now, revision, hrow, hne, hallows, hin, ?_⟩
        rw [← eq_of_mem_tasks htask, hattempt]
        rfl
      · cases hnone
    · rintro ⟨filename, response, now, revision, -, -, -, hin, rfl⟩
      exact ⟨_, _, finished_of_answered h hin, rfl, rfl⟩
  · obtain ⟨⟨t, r⟩, hmem, rfl⟩ := List.mem_map.1 ((hacc.perm_of_over hover).mem_iff.2 htask)
    rcases mem_finished h hmem with ⟨a, rfl, -⟩ | ⟨-, hfound⟩
    · exact Or.inl ⟨a.ok, (lookup_outcomes h).2 ⟨t, a, hmem, rfl, rfl⟩⟩
    · exact Or.inr hfound
  · obtain ⟨gs, hrun, hlen⟩ := gather_runs h
    rw [← hlen]
    exact Gather.length_le hrun

/-- A call with one permit and no rules, for a repository with the packages `a` and `b`. -/
def pairWarm (force : Bool) : WarmContext where
  config := ReplacementSystem.purgingConfig
  repo := plainRepo .dnf "r" "http://h/x"
  notNix := by decide
  policy := .new .empty (plainRepo .dnf "r" "http://h/x") ⟨[], []⟩ []
  force := force
  prefetchConcurrency := 1
  expectedHashes := .empty

def pairPackages : Dict Str Str := .ofPairs [(['a'], ['x']), (['b'], ['y'])]

def pairTask (force : Bool) (key filename : Char) : WarmTask :=
  ⟨[key], [filename], warmUrl (pairWarm force).config (pairWarm force).repo [filename]⟩

def zeros : Bytes → Vector UInt8 32 := fun _ => Vector.replicate 32 0

/-- The second package is refused while the first one waits. -/
def refusedRun : List WarmEvent :=
  [.acquire (pairTask true 'b' 'y'), .respond (pairTask true 'b' 'y') (.refused 404) [] []]

theorem warm_exact_refused : ∃ s, Exact zeros (pairWarm true) pairPackages
    ((pairWarm true).start zeros pairPackages .empty none) refusedRun s ∧ ['b'] ∈ s.failedKeys ∧
    s.outcomes.lookup ['a'] = none := by
  have h₁ : (pairWarm true).Runs zeros ((pairWarm true).start zeros pairPackages .empty none)
      ([] ++ [.acquire (pairTask true 'b' 'y')]) _ := .snoc (.nil _) rfl
  have h₂ : (pairWarm true).Runs zeros ((pairWarm true).start zeros pairPackages .empty none)
      (([] ++ [.acquire (pairTask true 'b' 'y')]) ++ [.respond (pairTask true 'b' 'y') (.refused 404) [] []]) _ :=
    .snoc h₁ rfl
  exact ⟨_, warm_exact h₂, List.mem_singleton_self _, rfl⟩

/-! ## Opting out -/

/-- The tasks that were answered. -/
def answeredTasks (as : List WarmEvent) : List WarmTask :=
  as.filterMap fun a => match a with | .respond task _ _ _ => some task | _ => none

/-- **An opt-out stops what has not begun**: once automatic warming is off for the repository, and as long as it stays off,
only downloads that were under way are answered, so no more than there are permits. -/
theorem warm_opt_out {bs : List WarmEvent} (h : c.Runs sha256 (c.start sha256 newPackages store repos) as s)
    (h' : c.Runs sha256 s bs s') (hforce : c.force = false)
    (hoff : automaticWarmEnabled sha256 s.automaticWarmRepos c.repo = false)
    (hstays : ∀ store repos, .other store repos ∈ bs → automaticWarmEnabled sha256 repos c.repo = false) :
    (∀ task ∈ answeredTasks bs, task ∈ s.gather.running) ∧ (answeredTasks bs).length ≤ c.prefetchConcurrency := by
  have hall : automaticWarmEnabled sha256 s'.automaticWarmRepos c.repo = false ∧
      (s'.gather.running ++ answeredTasks bs).Perm s.gather.running := by
    clear h
    induction h' with
    | nil => exact ⟨hoff, by simp [answeredTasks]⟩
    | @snoc s₁ s₂ bs b _ hs ih =>
      obtain ⟨hoff₁, hperm⟩ := ih fun store repos hin => hstays store repos (List.mem_append_left _ hin)
      cases b with
      | acquire t =>
        rcases step_acquire hs with ⟨-, -, g, hg, rfl⟩ | ⟨hon, -⟩
        · obtain ⟨-, rfl⟩ := Gather.step_skip hg
          exact ⟨hoff₁, by simpa [answeredTasks] using hperm⟩
        · rw [hforce, hoff₁] at hon
          simp at hon
      | respond t response now revision =>
        obtain ⟨g, hg, rfl⟩ := step_respond hs
        obtain ⟨hrunning, rfl⟩ := Gather.step_finish hg
        refine ⟨hoff₁, List.Perm.trans ?_ hperm⟩
        simpa [note, answeredTasks] using Gather.perm_move hrunning (answeredTasks bs) []
      | other store repos =>
        obtain rfl := step_other hs
        exact ⟨hstays store repos (by simp), by simpa [answeredTasks] using hperm⟩
  refine ⟨fun task htask => hall.2.mem_iff.1 (List.mem_append_right _ htask), ?_⟩
  have hlen := hall.2.length_eq
  have hbound := (accounted h).bound
  rw [List.length_append] at hlen
  omega

theorem pairWarm_enabled : automaticWarmEnabled zeros none (pairWarm false).repo = true := by
  simp [automaticWarmEnabled, pairWarm, plainRepo]

/-- A package is under way when its repository is removed; the other one is not begun. -/
theorem warm_opt_out_removed :
    answeredTasks [.respond (pairTask false 'a' 'x') .lost [] [], .acquire (pairTask false 'b' 'y')] =
      [pairTask false 'a' 'x'] ∧
    (∀ task ∈ answeredTasks [.respond (pairTask false 'a' 'x') .lost [] [], .acquire (pairTask false 'b' 'y')],
      task ∈ [pairTask false 'a' 'x']) := by
  have hacquire : (pairWarm false).step zeros ((pairWarm false).start zeros pairPackages .empty none)
      (.acquire (pairTask false 'a' 'x')) =
        some ⟨.empty, none, ⟨[pairTask false 'b' 'y'], [pairTask false 'a' 'x'], []⟩, .empty, []⟩ :=
    (acquire_eq (Or.inr pairWarm_enabled)).trans rfl
  have h₁ : (pairWarm false).Runs zeros _ ([] ++ [.acquire (pairTask false 'a' 'x')]) _ := .snoc (.nil _) hacquire
  have h₂ : (pairWarm false).Runs zeros _ (([] ++ [.acquire (pairTask false 'a' 'x')]) ++ [.other .empty (some .empty)])
      ⟨.empty, some .empty, ⟨[pairTask false 'b' 'y'], [pairTask false 'a' 'x'], []⟩, .empty, []⟩ := .snoc h₁ rfl
  have h₃ : (pairWarm false).Runs zeros
      ⟨.empty, some .empty, ⟨[pairTask false 'b' 'y'], [pairTask false 'a' 'x'], []⟩, .empty, []⟩
      ([] ++ [.respond (pairTask false 'a' 'x') .lost [] []]) _ := .snoc (.nil _) rfl
  have h₄ : (pairWarm false).Runs zeros _ (([] ++ [.respond (pairTask false 'a' 'x') .lost [] []]) ++
      [.acquire (pairTask false 'b' 'y')]) _ := .snoc h₃ rfl
  exact ⟨rfl, (warm_opt_out h₂ h₄ rfl rfl fun store repos hin => by simp at hin).1⟩

/-! ## The records -/

/-- What every other writer leaves alone. -/
def Quiet (pk : Str × Str) (s : WarmRun) : WarmEvent → Prop
  | .other store _ => store.db.warmedPackages.get pk = s.store.db.warmedPackages.get pk
  | _ => True

abbrev QuietRuns (sha256 : Bytes → Vector UInt8 32) (c : WarmContext) (pk : Str × Str) :
    WarmRun → List WarmEvent → WarmRun → Prop :=
  Run fun s a s' => c.step sha256 s a = some s' ∧ Quiet pk s a

theorem QuietRuns.runs {pk : Str × Str} (h : QuietRuns sha256 c pk s as s') : c.Runs sha256 s as s' := by
  induction h with
  | nil => exact .nil _
  | snoc _ hs ih => exact .snoc ih hs.1

/-- The attempts one after another. -/
def recordAll (repoId : Str) (db : Database) (l : List (WarmTask × Option Attempt)) : Database :=
  l.foldl (fun db f => db.recordAttempt repoId f.1.key f.1.filename f.2) db

section Records
variable {repoId : Str} {pk : Str × Str} {db db' : Database} {l l' : List (WarmTask × Option Attempt)}

theorem recordAttempt_congr {key filename : Str} {r : Option Attempt}
    (h : db.warmedPackages.get pk = db'.warmedPackages.get pk) :
    (db.recordAttempt repoId key filename r).warmedPackages.get pk =
      (db'.recordAttempt repoId key filename r).warmedPackages.get pk := by
  cases r with
  | none => exact h
  | some a =>
    simp only [Database.recordAttempt, Database.get_recordWarmedPackage]
    by_cases hpk : pk = (repoId, key)
    · subst hpk
      simp only [if_true, Database.warmedRow, h]
    · simp only [if_neg hpk, h]

/-- An attempt at another key, or none, leaves a record as it is. -/
theorem recordAttempt_of_ne {key filename : Str} {r : Option Attempt} (h : pk = (repoId, key) → r = none) :
    (db.recordAttempt repoId key filename r).warmedPackages.get pk = db.warmedPackages.get pk := by
  cases r with
  | none => rfl
  | some a =>
    rw [Database.recordAttempt, Database.get_recordWarmedPackage, if_neg fun hpk => by simpa using h hpk]

theorem recordAll_of_ne : ∀ {l : List (WarmTask × Option Attempt)} {db : Database},
    (∀ f ∈ l, pk = (repoId, f.1.key) → f.2 = none) →
    (recordAll repoId db l).warmedPackages.get pk = db.warmedPackages.get pk
  | [], _, _ => rfl
  | f :: l, db, h => by
    show (recordAll repoId (db.recordAttempt repoId f.1.key f.1.filename f.2) l).warmedPackages.get pk = _
    rw [recordAll_of_ne fun g hg => h g (List.mem_cons_of_mem _ hg), recordAttempt_of_ne (h f List.mem_cons_self)]

/-- **A key that is attempted once** has the record of that attempt. -/
theorem recordAll_of_mem : ∀ {l : List (WarmTask × Option Attempt)} {db : Database} {f : WarmTask × Option Attempt},
    (l.map fun f => f.1.key).Nodup → f ∈ l →
    (recordAll repoId db l).warmedPackages.get (repoId, f.1.key) =
      (db.recordAttempt repoId f.1.key f.1.filename f.2).warmedPackages.get (repoId, f.1.key)
  | g :: l, db, f, hnodup, hf => by
    rw [List.map_cons, List.nodup_cons] at hnodup
    show (recordAll repoId (db.recordAttempt repoId g.1.key g.1.filename g.2) l).warmedPackages.get _ = _
    rcases List.mem_cons.1 hf with rfl | hf
    · exact recordAll_of_ne fun g hg hpk => absurd (List.mem_map.2 ⟨g, hg, (Prod.mk.inj hpk).2.symm⟩) hnodup.1
    · rw [recordAll_of_mem hnodup.2 hf]
      refine recordAttempt_congr (recordAttempt_of_ne fun hpk => ?_)
      exact absurd (List.mem_map.2 ⟨f, hf, (Prod.mk.inj hpk).2⟩) hnodup.1

/-- **The order of the attempts does not matter.** -/
theorem recordAll_perm (h : l.Perm l') (hnodup : (l.map fun f => f.1.key).Nodup) :
    (recordAll repoId db l).warmedPackages.get pk = (recordAll repoId db l').warmedPackages.get pk := by
  have hnodup' : (l'.map fun f => f.1.key).Nodup := (h.map _).nodup_iff.1 hnodup
  by_cases hpk : ∃ f ∈ l, pk = (repoId, f.1.key)
  · obtain ⟨f, hf, rfl⟩ := hpk
    rw [recordAll_of_mem hnodup hf, recordAll_of_mem hnodup' (h.mem_iff.1 hf)]
  · rw [recordAll_of_ne fun f hf e => absurd ⟨f, hf, e⟩ hpk,
      recordAll_of_ne fun f hf e => absurd ⟨f, h.mem_iff.2 hf, e⟩ hpk]

end Records

/-- The record of a key that no other writer touches is what the attempts so far make of it. -/
theorem get_quiet {pk : Str × Str} (h : QuietRuns sha256 c pk (c.start sha256 newPackages store repos) as s) :
    s.store.db.warmedPackages.get pk = (recordAll c.repo.id store.db s.gather.finished).warmedPackages.get pk := by
  induction h with
  | nil =>
    unfold start recordAll
    dsimp only
    split <;> rfl
  | @snoc s₁ s₂ as a _ hs ih =>
    obtain ⟨hs, hquiet⟩ := hs
    cases a with
    | acquire t =>
      rcases step_acquire hs with ⟨-, -, g, hg, rfl⟩ | ⟨-, g, hg, rfl⟩
      · obtain ⟨-, rfl⟩ := Gather.step_skip hg
        rw [recordAll, List.foldl_append]
        exact ih
      · obtain ⟨-, rfl⟩ := Gather.step_start hg
        exact ih
    | respond t response now revision =>
      obtain ⟨g, hg, rfl⟩ := step_respond hs
      obtain ⟨-, rfl⟩ := Gather.step_finish hg
      rw [recordAll, note, List.foldl_append]
      exact recordAttempt_congr ih
    | other store repos =>
      obtain rfl := step_other hs
      exact hquiet.trans ih

/-- What came of a key's task. -/
def attemptOf (s : WarmRun) (key : Str) : Option Attempt :=
  (s.gather.finished.find? fun f => f.1.key == key).bind Prod.snd

theorem attemptOf_of_mem (h : c.Runs sha256 (c.start sha256 newPackages store repos) as s) {r : Option Attempt}
    (hmem : (task, r) ∈ s.gather.finished) : attemptOf s task.key = r := by
  unfold attemptOf
  cases hf : s.gather.finished.find? fun f => f.1.key == task.key with
  | none => simpa using List.find?_eq_none.1 hf _ hmem
  | some f =>
    have hkey : f.1.key = task.key := by simpa using List.find?_some hf
    obtain rfl : f = (task, r) := List.inj_on_of_nodup_map (keys_finished_nodup h) (List.mem_of_find?_eq_some hf) hmem hkey
    rfl

/-- The results of a run that is over, in the order of the tasks. -/
theorem finished_perm (h : c.Runs sha256 (c.start sha256 newPackages store repos) as s) (hover : s.gather.Over) :
    s.gather.finished.Perm ((c.gathered newPackages).map fun t => (t, attemptOf s t.key)) := by
  have hself : s.gather.finished = (s.gather.finished.map Prod.fst).map fun t => (t, attemptOf s t.key) := by
    rw [List.map_map, eq_comm]
    conv => rhs; rw [← List.map_id s.gather.finished]
    exact List.map_congr_left fun f hf => by simp [attemptOf_of_mem h (show (f.1, f.2) ∈ s.gather.finished from hf)]
  rw [hself]
  exact ((accounted h).perm_of_over hover).map _

/-- The selection of a sequential warm is that of the tasks. -/
theorem warmTasks_eq {interested : List Str} :
    (⟨c.config, c.repo, interested, c.policy.allows⟩ : RefreshContext).warmTasks newPackages =
      (c.tasks newPackages).map fun t => (t.key, t.filename) := by
  unfold RefreshContext.warmTasks tasks
  rw [List.map_filterMap, ← List.filterMap_eq_filter]
  refine List.filterMap_congr fun row _ => ?_
  obtain ⟨key, filename⟩ := row
  by_cases hne : filename = []
  · simp [hne, Option.guard]
  · by_cases hallows : c.policy.allows key = true <;> simp [hne, hallows, Option.guard]

/-- **The records of an automatic warm are those of warming the packages one after another**, whatever the order in which
its downloads began and ended. -/
theorem warm_sequential {pk : Str × Str} {interested : List Str}
    (h : QuietRuns sha256 c pk (c.start sha256 newPackages store repos) as s) (hforce : c.force = false)
    (hover : s.gather.Over) :
    s.store.db.warmedPackages.get pk =
      ((⟨c.config, c.repo, interested, c.policy.allows⟩ : RefreshContext).warmCache (attemptOf s) newPackages
        store.db).warmedPackages.get pk := by
  rw [get_quiet h, recordAll_perm (finished_perm h.runs hover) (keys_finished_nodup h.runs)]
  unfold RefreshContext.warmCache gathered recordAll
  by_cases hprefetch : c.repo.prefetch = true
  · rw [if_neg (by simp [hprefetch]), if_neg (by simp [hprefetch]), warmTasks_eq, List.foldl_map, List.foldl_map]
  · rw [Bool.not_eq_true] at hprefetch
    rw [if_pos (by simp [hforce, hprefetch]), if_pos hprefetch]
    rfl

/-- The second package is warmed first. -/
theorem warm_sequential_swapped : ∃ s : WarmRun,
    s.store.db.warmedPackages.get (['r'], ['b']) =
      ((⟨(pairWarm false).config, (pairWarm false).repo, [], (pairWarm false).policy.allows⟩ : RefreshContext).warmCache
        (attemptOf s) pairPackages .empty).warmedPackages.get (['r'], ['b']) ∧
    (s.store.db.warmedPackages.get (['r'], ['b'])).map WarmedRow.warmedAt = some ['1'] := by
  have h₁ : QuietRuns zeros (pairWarm false) (['r'], ['b']) ((pairWarm false).start zeros pairPackages .empty none)
      ([] ++ [.acquire (pairTask false 'b' 'y')])
      ⟨.empty, none, ⟨[pairTask false 'a' 'x'], [pairTask false 'b' 'y'], []⟩, .empty, []⟩ :=
    .snoc (.nil _) ⟨(acquire_eq (Or.inr pairWarm_enabled)).trans rfl, trivial⟩
  have h₂ : QuietRuns zeros (pairWarm false) (['r'], ['b']) _
      (([] ++ [.acquire (pairTask false 'b' 'y')]) ++ [.respond (pairTask false 'b' 'y') (.refused 404) ['1'] ['p']]) _ :=
    .snoc h₁ ⟨rfl, trivial⟩
  have h₃ : QuietRuns zeros (pairWarm false) (['r'], ['b']) _ ((([] ++ [.acquire (pairTask false 'b' 'y')]) ++
      [.respond (pairTask false 'b' 'y') (.refused 404) ['1'] ['p']]) ++ [.acquire (pairTask false 'a' 'x')]) _ :=
    .snoc h₂ ⟨(acquire_eq (Or.inr pairWarm_enabled)).trans rfl, trivial⟩
  have h₄ : QuietRuns zeros (pairWarm false) (['r'], ['b']) _ (((([] ++ [.acquire (pairTask false 'b' 'y')]) ++
      [.respond (pairTask false 'b' 'y') (.refused 404) ['1'] ['p']]) ++ [.acquire (pairTask false 'a' 'x')]) ++
      [.respond (pairTask false 'a' 'x') .lost ['2'] ['q']]) _ := .snoc h₃ ⟨rfl, trivial⟩
  exact ⟨_, warm_sequential h₄ rfl ⟨rfl, rfl⟩, rfl⟩

/-! ## The streak and the events -/

/-- What `_warm_cache` notes of the failure streak when its tasks are over, and what it sends. -/
def conclude (notify : NotifyConfig) (c : WarmContext) (newPackages : Dict Str Str) (s : WarmRun) (state : FailureState)
    (now : Str) : FailureState × Option Notification :=
  if s.outcomes.rows.isEmpty then (state, none)
  else match s.failedKeys with
    | first :: _ => recordFailureAndMaybeNotify notify state c.repo.id .prefetch
        ((toString s.failedKeys.length).toList ++ "/".toList ++ (toString (c.gathered newPackages).length).toList ++
          " packages failed to warm in this run (e.g.: ".toList ++ first ++ ")".toList) now
    | [] => recordSuccessAndMaybeNotify notify state c.repo.id .prefetch

/-- The data of `warm.started`, without the identifier of the operation. -/
structure WarmOperation where
  requested : Nat
  eligible : Nat
  manual : Bool
  deriving DecidableEq

/-- The data of `warm.completed`. -/
structure WarmCompleted extends WarmOperation where
  status : Str
  succeeded : Nat
  failed : Nat
  skipped : Int

def selected (policy : WarmingPolicy) (newPackages : Dict Str Str) : Dict Str Str :=
  newPackages.filter fun item => decide (item.2 ≠ []) && policy.allows item.1

/-- The operation that `warm_cache` announces, if anybody listens and anything is selected. -/
def announced (notify : NotifyConfig) (repo : RepoConfig) (policy : WarmingPolicy) (newPackages : Dict Str Str)
    (force : Bool) : Option WarmOperation :=
  if newPackages.rows.isEmpty || (!force && !repo.prefetch) ||
      !(notify.enabled .warmStarted || notify.enabled .warmCompleted) then none
  else if (selected policy newPackages).rows.isEmpty then none
  else some ⟨newPackages.rows.length, (selected policy newPackages).rows.length, force⟩

/-- The packages that `warm_cache` hands on. -/
def handed (notify : NotifyConfig) (repo : RepoConfig) (policy : WarmingPolicy) (newPackages : Dict Str Str)
    (force : Bool) : Dict Str Str :=
  if (announced notify repo policy newPackages force).isSome then selected policy newPackages else newPackages

def completed (operation : WarmOperation) (outcomes : Dict Str Bool) : WarmCompleted :=
  let succeeded := (outcomes.rows.filter Prod.snd).length
  let failed := outcomes.rows.length - succeeded
  { toWarmOperation := operation
    status := if failed ≠ 0 ∧ succeeded ≠ 0 then "partial".toList else if failed ≠ 0 then "failed".toList
      else "completed".toList
    succeeded := succeeded
    failed := failed
    skipped := (operation.requested : Int) - outcomes.rows.length }

theorem length_filter_add {α : Type} (p : α → Bool) (l : List α) :
    (l.filter p).length + (l.filter fun a => !p a).length = l.length := by
  rw [← List.length_append]
  exact (List.filter_append_perm p l).length_eq

/-- The failures of an event are the outcomes that are not a success. -/
theorem failed_completed {operation : WarmOperation} {outcomes : Dict Str Bool} :
    (completed operation outcomes).failed = (outcomes.rows.filter fun o => !o.2).length := by
  have h := length_filter_add Prod.snd outcomes.rows
  show outcomes.rows.length - (outcomes.rows.filter Prod.snd).length = _
  omega

theorem attempted_completed {operation : WarmOperation} {outcomes : Dict Str Bool} :
    (completed operation outcomes).succeeded + (completed operation outcomes).failed = outcomes.rows.length := by
  rw [failed_completed]
  exact length_filter_add Prod.snd outcomes.rows

theorem status_completed {operation : WarmOperation} {outcomes : Dict Str Bool} :
    (completed operation outcomes).status = "completed".toList ↔ (completed operation outcomes).failed = 0 := by
  have hpartial : "partial".toList ≠ "completed".toList := by decide
  have hfailed : "failed".toList ≠ "completed".toList := by decide
  unfold completed
  dsimp only
  by_cases hf : outcomes.rows.length - (outcomes.rows.filter Prod.snd).length = 0
  · simp [hf]
  · by_cases hs : (outcomes.rows.filter Prod.snd).length = 0
    · rw [if_neg fun h => h.2 hs, if_pos hf]
      exact iff_of_false hfailed hf
    · rw [if_pos ⟨hf, hs⟩]
      exact iff_of_false hpartial hf

theorem announced_eq_some {notify : NotifyConfig} {repo : RepoConfig} {outer : WarmingPolicy} {force : Bool}
    {operation : WarmOperation} (h : announced notify repo outer newPackages force = some operation) :
    operation = ⟨newPackages.rows.length, (selected outer newPackages).rows.length, force⟩ ∧
      handed notify repo outer newPackages force = selected outer newPackages ∧ (!force && !repo.prefetch) = false := by
  have hsome : (announced notify repo outer newPackages force).isSome = true := by rw [h]; rfl
  have hhanded : handed notify repo outer newPackages force = selected outer newPackages := by
    unfold handed
    rw [if_pos hsome]
  unfold announced at h
  split at h
  · cases h
  · rename_i hgo
    split at h
    · cases h
    · simp only [Bool.or_eq_true, not_or, Bool.not_eq_true] at hgo
      exact ⟨(Option.some.inj h).symm, hhanded, hgo.1.2⟩

/-- The failures in a row that are noted of a pair. -/
def streak (state : FailureState) (pair : AlertPair) : Nat :=
  match state.get pair with
  | none => 0
  | some row => row.consecutiveFailures

theorem streak_bumpFailure (state : FailureState) (repoId : Str) (kind : FailureKind) (message now : Str)
    (pair : AlertPair) :
    streak (state.bumpFailure repoId kind message now).1 pair =
      if pair = (repoId, kind) then streak state pair + 1 else streak state pair := by
  unfold streak FailureState.bumpFailure
  by_cases h : pair = (repoId, kind)
  · subst h
    cases state.get (repoId, kind) <;> simp [FailureRow.pk]
  · cases state.get (repoId, kind) <;> simp [FailureRow.pk, h]

theorem streak_resetFailure (state : FailureState) (repoId : Str) (kind : FailureKind) (pair : AlertPair) :
    streak (state.resetFailure repoId kind).1 pair = if pair = (repoId, kind) then 0 else streak state pair := by
  unfold streak
  rw [FailureState.get_resetFailure]
  by_cases h : pair = (repoId, kind) <;> simp [h]

theorem failedKeys_eq_nil_iff (h : c.Runs sha256 (c.start sha256 newPackages store repos) as s) :
    s.failedKeys = [] ↔ (s.outcomes.rows.filter fun o => !o.2) = [] := by
  rw [List.eq_nil_iff_forall_not_mem, List.filter_eq_nil_iff]
  constructor
  · rintro hnil ⟨key, ok⟩ hmem hok
    have hfalse : ok = false := by simpa using hok
    exact hnil key ((mem_failedKeys h).2 (Dict.lookup_eq_some_iff.2 (hfalse ▸ hmem)))
  · intro hall key hkey
    have hmem := Dict.lookup_eq_some_iff.1 ((mem_failedKeys h).1 hkey)
    exact hall _ hmem rfl

/-- **What the streak comes to**: one failure more when a package failed, none when all were warmed, and nothing is noted
where nothing was attempted. -/
theorem streak_conclude (operation : WarmOperation) {notify : NotifyConfig} {state : FailureState} {now : Str}
    (h : c.Runs sha256 (c.start sha256 newPackages store repos) as s) (pair : AlertPair) :
    streak (conclude notify c newPackages s state now).1 pair =
      if pair ≠ (c.repo.id, .prefetch) then streak state pair
      else if (completed operation s.outcomes).failed ≠ 0 then streak state pair + 1
      else if (completed operation s.outcomes).succeeded ≠ 0 then 0
      else streak state pair := by
  have hfailed : (completed operation s.outcomes).failed = 0 ↔ s.failedKeys = [] := by
    rw [failed_completed, List.length_eq_zero_iff, failedKeys_eq_nil_iff h]
  have hsum : (completed operation s.outcomes).succeeded + (completed operation s.outcomes).failed =
      s.outcomes.rows.length := attempted_completed
  unfold conclude
  cases hrows : s.outcomes.rows with
  | nil =>
    rw [hrows, List.length_nil] at hsum
    obtain ⟨hs, hf⟩ := Nat.add_eq_zero_iff.1 hsum
    simp [hs, hf]
  | cons o rows =>
    rw [hrows, List.length_cons] at hsum
    rw [List.isEmpty_cons, if_neg Bool.false_ne_true]
    cases hkeys : s.failedKeys with
    | nil =>
      have hf := hfailed.2 hkeys
      have hs : (completed operation s.outcomes).succeeded ≠ 0 := by omega
      dsimp only [recordSuccessAndMaybeNotify]
      rw [streak_resetFailure]
      by_cases hpair : pair = (c.repo.id, .prefetch) <;> simp [hpair, hf, hs]
    | cons first rest =>
      have hf : (completed operation s.outcomes).failed ≠ 0 := fun hf => by simp [hfailed.1 hf] at hkeys
      dsimp only [recordFailureAndMaybeNotify]
      rw [streak_bumpFailure]
      by_cases hpair : pair = (c.repo.id, .prefetch) <;> simp [hpair, hf]

theorem length_outcomes_le (h : c.Runs sha256 (c.start sha256 newPackages store repos) as s) :
    s.outcomes.rows.length ≤ newPackages.rows.length := by
  have hkeys : ∀ key ∈ s.outcomes.rows.map Prod.fst, key ∈ newPackages.rows.map Prod.fst := by
    intro key hkey
    obtain ⟨⟨key, ok⟩, hmem, rfl⟩ := List.mem_map.1 hkey
    obtain ⟨filename, -, -, -, hrow, -⟩ := ((warm_exact h).outcome key ok).1 (Dict.lookup_eq_some_iff.2 hmem)
    exact List.mem_map.2 ⟨_, hrow, rfl⟩
  simpa using (List.Nodup.subperm s.outcomes.keysNodup hkeys).length_le

end WarmContext

/-! ## Manual warming -/

/-- `RepositoriesStore.get_packages_by_keys`: `none` for a repository that was never checked. -/
def Database.getPackagesByKeys (db : Database) (repoId : Str) (packageKeys : List Str) : Option (Dict Str Str) :=
  if (db.repoState.get repoId).any fun s => decide (s.lastCheck ≠ []) then
    some (.ofPairs (packageKeys.filterMap fun key =>
      ((db.repoPackages.get (repoId, key)).map PackageRow.filename).map (Prod.mk key)))
  else none

/-- The answer of `warm_selected`. -/
structure WarmSelected where
  warmed : List Str
  failed : List Str
  skipped : List Str
  notFound : List Str
  deriving DecidableEq

namespace WarmSelected

def knownPackages (db : Database) (repoId : Str) (requestedKeys : List Str) : Dict Str Str :=
  (db.getPackagesByKeys repoId requestedKeys).getD .empty

/-- `{k: known_packages[k] for k in requested_keys if k in known_packages}`. -/
def toWarm (known : Dict Str Str) (requestedKeys : List Str) : Dict Str Str :=
  .ofPairs (requestedKeys.filterMap fun key => (known.lookup key).map (Prod.mk key))

def ofOutcomes (known : Dict Str Str) (requestedKeys : List Str) (outcomes : Dict Str Bool) : WarmSelected where
  warmed := sortedStr ((outcomes.rows.filter Prod.snd).map Prod.fst)
  failed := sortedStr ((outcomes.rows.filter fun o => !o.2).map Prod.fst)
  skipped := sortedStr ((toWarm known requestedKeys).keys.filter fun key => decide (key ∉ outcomes.keys))
  notFound := requestedKeys.filter fun key => (known.lookup key).isNone

/-- A dictionary of some keys has the value of each of them. -/
theorem lookup_comprehension (g : Str → Option Str) (keys : List Str) (k : Str) :
    (Dict.ofPairs (keys.filterMap fun key => (g key).map (Prod.mk key))).lookup k = if k ∈ keys then g k else none := by
  have hlook := Dict.lookup_ofPairs_filterMap id g keys k
  simp only [id] at hlook
  rw [hlook]
  cases hf : keys.reverse.find? fun key => decide (key = k) && (g key).isSome with
  | none =>
    rw [List.find?_eq_none] at hf
    split
    · rename_i hk
      have hnone : g k = none := by simpa using hf k (List.mem_reverse.2 hk)
      exact hnone.symm
    · rfl
  | some key =>
    have hkey := List.find?_some hf
    have hmem := List.mem_reverse.1 (List.mem_of_find?_eq_some hf)
    obtain rfl : key = k := by simpa using (Bool.and_eq_true_iff.1 hkey).1
    rw [if_pos hmem]
    rfl

theorem lookup_known {db : Database} {repoId key : Str} {requestedKeys : List Str} :
    (knownPackages db repoId requestedKeys).lookup key =
      if ((db.repoState.get repoId).any fun s => decide (s.lastCheck ≠ [])) ∧ key ∈ requestedKeys then
        (db.repoPackages.get (repoId, key)).map PackageRow.filename
      else none := by
  unfold knownPackages Database.getPackagesByKeys
  by_cases hchecked : ((db.repoState.get repoId).any fun s => decide (s.lastCheck ≠ [])) = true
  · rw [if_pos hchecked, Option.getD_some, lookup_comprehension]
    simp only [hchecked, true_and]
  · rw [if_neg hchecked, Option.getD_none, if_neg fun h => hchecked h.1]
    rfl

theorem lookup_toWarm {known : Dict Str Str} {requestedKeys : List Str} {key : Str} :
    (toWarm known requestedKeys).lookup key = if key ∈ requestedKeys then known.lookup key else none :=
  lookup_comprehension known.lookup requestedKeys key

section
variable {known : Dict Str Str} {requestedKeys : List Str} {outcomes : Dict Str Bool} {key : Str}

theorem mem_sorted_outcomes {p : Str × Bool → Bool} {ok : Bool} (hp : ∀ o, p o = true ↔ o.2 = ok) :
    key ∈ sortedStr ((outcomes.rows.filter p).map Prod.fst) ↔ outcomes.lookup key = some ok := by
  rw [mem_sortedStr, Dict.lookup_eq_some_iff]
  simp [List.mem_filter, hp]

theorem mem_warmed : key ∈ (ofOutcomes known requestedKeys outcomes).warmed ↔ outcomes.lookup key = some true :=
  mem_sorted_outcomes fun _ => Iff.rfl

theorem mem_failed : key ∈ (ofOutcomes known requestedKeys outcomes).failed ↔ outcomes.lookup key = some false :=
  mem_sorted_outcomes fun o => by simp

theorem mem_skipped : key ∈ (ofOutcomes known requestedKeys outcomes).skipped ↔
    key ∈ requestedKeys ∧ (known.lookup key).isSome ∧ outcomes.lookup key = none := by
  show key ∈ sortedStr _ ↔ _
  have hkeys : key ∈ (toWarm known requestedKeys).keys ↔ (toWarm known requestedKeys).lookup key ≠ none := by
    rw [ne_eq, Dict.lookup_eq_none_iff, not_not]
  rw [mem_sortedStr, List.mem_filter, decide_eq_true_eq, ← Dict.lookup_eq_none_iff, hkeys, lookup_toWarm]
  by_cases hk : key ∈ requestedKeys <;> simp [hk, Option.isSome_iff_ne_none]

theorem mem_notFound : key ∈ (ofOutcomes known requestedKeys outcomes).notFound ↔
    key ∈ requestedKeys ∧ known.lookup key = none := by
  show key ∈ requestedKeys.filter _ ↔ _
  simp

end

section
variable {sha256 : Bytes → Vector UInt8 32} {c : WarmContext} {notify : NotifyConfig} {outer : WarmingPolicy}
  {requestedKeys : List Str} {known : Dict Str Str} {store : DemandStore} {repos : Option (Dict Str RepoConfig)}
  {s : WarmRun} {as : List WarmEvent}

/-- The packages that a manual warm hands to `_warm_cache`. -/
def manual (notify : NotifyConfig) (repo : RepoConfig) (outer : WarmingPolicy) (known : Dict Str Str)
    (requestedKeys : List Str) : Dict Str Str :=
  WarmContext.handed notify repo outer (toWarm known requestedKeys) true

theorem mem_manual {repo : RepoConfig} {key filename : Str} :
    (key, filename) ∈ (manual notify repo outer known requestedKeys).rows ↔
    key ∈ requestedKeys ∧ known.lookup key = some filename ∧
      ((WarmContext.announced notify repo outer (toWarm known requestedKeys) true).isSome →
        filename ≠ [] ∧ outer.allows key = true) := by
  have hrow : (key, filename) ∈ (toWarm known requestedKeys).rows ↔
      key ∈ requestedKeys ∧ known.lookup key = some filename := by
    rw [← Dict.lookup_eq_some_iff, lookup_toWarm]
    by_cases hk : key ∈ requestedKeys <;> simp [hk]
  unfold manual WarmContext.handed
  by_cases ha : (WarmContext.announced notify repo outer (toWarm known requestedKeys) true).isSome = true
  · rw [if_pos ha]
    simp [WarmContext.selected, List.mem_filter, hrow, ha, and_assoc]
  · rw [if_neg ha, hrow]
    simp [ha]

/-- An outcome is one of a requested package that is known. -/
theorem requested_of_outcome
    (h : c.Runs sha256 (c.start sha256 (manual notify c.repo outer known requestedKeys) store repos) as s)
    {key : Str} {ok : Bool} (hok : s.outcomes.lookup key = some ok) :
    key ∈ requestedKeys ∧ (known.lookup key).isSome = true := by
  obtain ⟨filename, -, -, -, hrow, -⟩ := ((WarmContext.warm_exact h).outcome key ok).1 hok
  obtain ⟨hkey, hknown, -⟩ := mem_manual.1 hrow
  exact ⟨hkey, by rw [hknown]; rfl⟩

/-- **A requested package that is known has no outcome** when it has no file name or a policy excludes it. -/
theorem outcome_none_iff (hforce : c.force = true)
    (h : c.Runs sha256 (c.start sha256 (manual notify c.repo outer known requestedKeys) store repos) as s)
    (hover : s.gather.Over) {key filename : Str} (hk : key ∈ requestedKeys) (hknown : known.lookup key = some filename) :
    s.outcomes.lookup key = none ↔ filename = [] ∨ c.policy.allows key = false ∨
      (WarmContext.announced notify c.repo outer (toWarm known requestedKeys) true).isSome = true ∧
        outer.allows key = false := by
  have hexact := WarmContext.warm_exact h
  constructor
  · intro hnone
    by_contra hcon
    simp only [not_or, not_and, Bool.not_eq_false] at hcon
    obtain ⟨hne, hallows, houter⟩ := hcon
    have hrow : (key, filename) ∈ (manual notify c.repo outer known requestedKeys).rows :=
      mem_manual.2 ⟨hk, hknown, fun ha => ⟨hne, houter ha⟩⟩
    have htask : (⟨key, filename, warmUrl c.config c.repo filename⟩ : WarmTask) ∈
        c.gathered (manual notify c.repo outer known requestedKeys) := by
      unfold WarmContext.gathered
      rw [if_neg (by simp [hforce])]
      exact WarmContext.mem_tasks.2 ⟨hrow, hne, hallows, rfl⟩
    rcases hexact.settled hover _ htask with ⟨ok, hok⟩ | ⟨hoff, -⟩
    · rw [hnone] at hok
      cases hok
    · rw [hforce] at hoff
      cases hoff
  · intro hcases
    cases hout : s.outcomes.lookup key with
    | none => rfl
    | some ok =>
      obtain ⟨filename', -, -, -, hrow, hne, hallows, -⟩ := (hexact.outcome key ok).1 hout
      obtain ⟨-, hknown', houter⟩ := mem_manual.1 hrow
      obtain rfl : filename = filename' := Option.some.inj (hknown.symm.trans hknown')
      rcases hcases with rfl | hexcluded | ⟨ha, hexcluded⟩
      · exact absurd rfl hne
      · rw [hallows] at hexcluded
        cases hexcluded
      · rw [(houter ha).2] at hexcluded
        cases hexcluded

/-- A requested package is in one list of the answer. -/
theorem partition_ofOutcomes
    (h : c.Runs sha256 (c.start sha256 (manual notify c.repo outer known requestedKeys) store repos) as s) (key : Str) :
    ([(ofOutcomes known requestedKeys s.outcomes).warmed, (ofOutcomes known requestedKeys s.outcomes).failed,
      (ofOutcomes known requestedKeys s.outcomes).skipped, (ofOutcomes known requestedKeys s.outcomes).notFound].filter
        fun l => decide (key ∈ l)).length = if key ∈ requestedKeys then 1 else 0 := by
  simp only [List.filter_cons, mem_warmed, mem_failed, mem_skipped, mem_notFound, List.filter_nil]
  cases hout : s.outcomes.lookup key with
  | some ok =>
    obtain ⟨hk, hknown⟩ := requested_of_outcome h hout
    cases ok <;> simp [hk, Option.isSome_iff_ne_none.1 hknown]
  | none =>
    by_cases hk : key ∈ requestedKeys
    · cases hknown : known.lookup key <;> simp [hk]
    · simp [hk]

/-- The catalog lists a key that a checked repository asks for. -/
def Listed (db : Database) (repoId key : Str) (row : PackageRow) : Prop :=
  ((db.repoState.get repoId).any fun s => decide (s.lastCheck ≠ [])) = true ∧ db.repoPackages.get (repoId, key) = some row

theorem lookup_known_eq_some {db : Database} {repoId key filename : Str} (hk : key ∈ requestedKeys) :
    (knownPackages db repoId requestedKeys).lookup key = some filename ↔
      ∃ row, Listed db repoId key row ∧ row.filename = filename := by
  rw [lookup_known]
  simp only [hk, and_true, Option.ite_none_right_eq_some, Option.map_eq_some_iff, Listed, and_assoc, exists_and_left]

/-- **The answer of a manual warm** sorts the requested packages: each is in one of the four lists and nothing else is in
any.  What the catalog of a checked repository does not list is not found, and what is skipped are listed packages that have
no file name or that a policy excludes. -/
theorem warm_selected_exact (db : Database) (hforce : c.force = true)
    (h : c.Runs sha256 (c.start sha256 (manual notify c.repo outer (knownPackages db c.repo.id requestedKeys) requestedKeys)
      store repos) as s) (hover : s.gather.Over) (key : Str) :
    let answer := ofOutcomes (knownPackages db c.repo.id requestedKeys) requestedKeys s.outcomes
    (([answer.warmed, answer.failed, answer.skipped, answer.notFound].filter fun l => decide (key ∈ l)).length =
      if key ∈ requestedKeys then 1 else 0) ∧
    (key ∈ answer.notFound ↔ key ∈ requestedKeys ∧ ¬ ∃ row, Listed db c.repo.id key row) ∧
    (key ∈ answer.skipped ↔ key ∈ requestedKeys ∧ ∃ row, Listed db c.repo.id key row ∧
      (row.filename = [] ∨ c.policy.allows key = false ∨
        (WarmContext.announced notify c.repo outer (toWarm (knownPackages db c.repo.id requestedKeys) requestedKeys)
          true).isSome = true ∧ outer.allows key = false)) := by
  dsimp only
  refine ⟨partition_ofOutcomes h key, ?_, ?_⟩
  · rw [mem_notFound]
    refine and_congr_right fun hk => ?_
    rw [Option.eq_none_iff_forall_not_mem]
    constructor
    · rintro hnone ⟨row, hrow⟩
      exact hnone row.filename ((lookup_known_eq_some hk).2 ⟨row, hrow, rfl⟩)
    · rintro hno filename hfilename
      obtain ⟨row, hrow, -⟩ := (lookup_known_eq_some hk).1 hfilename
      exact hno ⟨row, hrow⟩
  · rw [mem_skipped]
    refine and_congr_right fun hk => ?_
    constructor
    · rintro ⟨hknown, hnone⟩
      obtain ⟨filename, hfilename⟩ := Option.isSome_iff_exists.1 hknown
      obtain ⟨row, hrow, rfl⟩ := (lookup_known_eq_some hk).1 hfilename
      exact ⟨row, hrow, (outcome_none_iff hforce h hover hk hfilename).1 hnone⟩
    · rintro ⟨row, hrow, hwhy⟩
      have hfilename := (lookup_known_eq_some hk).2 ⟨row, hrow, rfl⟩
      exact ⟨by rw [hfilename]; rfl, (outcome_none_iff hforce h hover hk hfilename).2 hwhy⟩

/-- A checked catalog that lists `b`, and `n` without a file name. -/
def halfListed : Database :=
  { Database.empty with
    repoState := Table.empty.upsert { repoId := ['r'], lastCheck := ['1'] }
    repoPackages := Table.empty.upsertAll [⟨['r'], ['b'], none, ['y'], none⟩, ⟨['r'], ['n'], none, [], none⟩] }

/-- Of three requested packages one is refused, one has no file name and one is not listed. -/
theorem warm_selected_exact_three : ∃ s : WarmRun, ['b'] ∈ s.failedKeys ∧
    ['n'] ∈ (ofOutcomes (knownPackages halfListed ['r'] [['b'], ['n'], ['u']]) [['b'], ['n'], ['u']]
      s.outcomes).skipped := by
  have h₁ : (WarmContext.pairWarm true).Runs WarmContext.zeros ((WarmContext.pairWarm true).start WarmContext.zeros
      (manual ⟨none, [], 3⟩ (WarmContext.pairWarm true).repo (WarmContext.pairWarm true).policy
        (knownPackages halfListed ['r'] [['b'], ['n'], ['u']]) [['b'], ['n'], ['u']]) .empty none)
      ([] ++ [.acquire (WarmContext.pairTask true 'b' 'y')]) _ := .snoc (.nil _) rfl
  have h₂ : (WarmContext.pairWarm true).Runs WarmContext.zeros _ (([] ++ [.acquire (WarmContext.pairTask true 'b' 'y')]) ++
      [.respond (WarmContext.pairTask true 'b' 'y') (.refused 404) [] []]) _ := .snoc h₁ rfl
  exact ⟨_, List.mem_singleton_self _, (warm_selected_exact halfListed rfl h₂ ⟨rfl, rfl⟩ ['n']).2.2.2
    ⟨by decide, _, ⟨rfl, rfl⟩, Or.inl rfl⟩⟩

end
end WarmSelected
end RepoWatch
