import RepoWatch.CatalogFetch
import RepoWatch.Lib.Ledger
import RepoWatch.NixPurge
import RepoWatch.PathIndex
/-!
# IndexRefresh — path indexes kept across refreshes

The listener keeps an index for each repository under the revision and the identity it was built for, and builds another one
when they differ.  It reads the revisions before the packages, so what a refresh leaves is each catalog as it was in some state
of the run since the refresh began (`refresh_fresh`), whatever the writers do in between, if no repository is deleted that
the listener still knows.
-/
namespace RepoWatch

open Lib RevisionOp

/-- An entry of `last_revision`, `packages_by_repo` and `by_path`. -/
structure KeptIndex where
  revision : Option Nat × Str
  packages : Dict Str Str
  index : PackagePathIndex

/-- A run of `refresh_package_indexes`: the revisions it has read, of the database `since`, and its loop over the
repositories. -/
structure IndexRefresh where
  config : Config
  revisions : Dict Str Nat
  since : Database
  visited : List RepoConfig
  remaining : List RepoConfig

structure ListenerSystem where
  db : Database
  kept : Dict Str KeptIndex
  refresh : Option IndexRefresh

inductive ListenerAction where
  | store (op : RevisionOp)
  | start (config : Config)
  -- one round of the loop over the repositories
  | visit

/-- `store.repositories.get_packages(repo.id) or {}`. -/
def Database.packageFiles (db : Database) (repoId : Str) : Dict Str Str := .ofPairs ((db.getPackages repoId).getD [])

namespace ListenerSystem

section
variable (netlocOk : Str → Bool) (sha256 : Bytes → Str)

def step (s : ListenerSystem) : ListenerAction → Option ListenerSystem
  | .store op => some { s with db := RevisionOp.apply s.db op }
  | .start config =>
    if s.refresh.any (fun refresh => !refresh.remaining.isEmpty) then none
    else some { s with
      kept := s.kept.filter fun entry => decide (entry.1 ∈ config.repos.map fun repo => repo.id)
      refresh := some ⟨config, s.db.getSnapshotRevisions, s.db, [], config.repos⟩ }
  | .visit =>
    match s.refresh with
    | some ⟨config, revisions, since, visited, repo :: remaining⟩ =>
      let revision := (revisions.lookup repo.id, catalogIdentity sha256 repo.toRepoFields)
      let refresh : IndexRefresh := ⟨config, revisions, since, visited ++ [repo], remaining⟩
      if (s.kept.lookup repo.id).any (fun kept => decide (kept.revision = revision)) then
        some { s with refresh := some refresh }
      else
        let packages := s.db.packageFiles repo.id
        (packagePathIndex netlocOk repo packages).map fun index =>
          { s with kept := s.kept.set repo.id ⟨revision, packages, index⟩, refresh := some refresh }
    | _ => none

/-- The listener has an index of the repository, or will look at it in the refresh under way. -/
def Knows (s : ListenerSystem) (r : Str) : Prop :=
  r ∈ s.kept.keys ∨ ∃ refresh, s.refresh = some refresh ∧ r ∈ refresh.remaining.map fun repo => repo.id

/-- The writers have a clock, and delete only what the listener does not know. -/
def Allows (s : ListenerSystem) : ListenerAction → Prop
  | .store op => op.Clocked ∧ ∀ r, op.deletes r = true → ¬ s.Knows r
  | _ => True

def new : ListenerSystem := ⟨.empty, .empty, none⟩

abbrev Runs : ListenerSystem → List ListenerAction → ListenerSystem → Prop :=
  Run fun s a s' => s.Allows a ∧ step netlocOk sha256 s a = some s'

/-- The state `s₁` is one of the run to `s`, since its last refresh began. -/
def SinceStart (actions : List ListenerAction) (s : ListenerSystem) (config : Config) (s₁ : ListenerSystem) : Prop :=
  ∃ before during after, actions = before ++ .start config :: (during ++ after) ∧
    (∀ config', .start config' ∉ during ++ after) ∧
    Runs netlocOk sha256 new (before ++ .start config :: during) s₁ ∧ Runs netlocOk sha256 s₁ after s

end

end ListenerSystem

/-! ## What is kept -/

section
variable {netlocOk : Str → Bool} {sha256 : Bytes → Str} {db db' : Database}

/-- The packages are those of a repository in a database. -/
def Lists (packages : Dict Str Str) (db : Database) (r : Str) : Prop :=
  ∀ k, packages.lookup k = (db.content (r, k)).map Prod.fst

theorem lists_packageFiles (hchecked : db.Checked) (r : Str) : Lists (db.packageFiles r) db r := by
  have hrows : ((db.getPackages r).getD []) = (db.packagesOf r).map fun p => (p.packageKey, p.filename) := by
    unfold Database.getPackages
    split
    · rfl
    · rename_i hnot
      have hnil : db.packagesOf r = [] := by
        refine List.eq_nil_iff_forall_not_mem.2 fun row hrow => ?_
        obtain ⟨hmem, rfl⟩ := Database.mem_packagesOf.1 hrow
        obtain ⟨state, hstate, hlast⟩ := hchecked row hmem
        exact hnot (by simp [hstate, hlast])
      rw [hnil]
      rfl
  have hkeys : (((db.packagesOf r).map fun p => (p.packageKey, p.filename)).map Prod.fst).Nodup := by
    rw [List.map_map]
    refine List.Nodup.map_on ?_ (List.filter_sublist.nodup (List.Nodup.of_map _ db.repoPackages.keysNodup))
    intro row hrow row' hrow' heq
    obtain ⟨hmem, hr⟩ := Database.mem_packagesOf.1 hrow
    obtain ⟨hmem', hr'⟩ := Database.mem_packagesOf.1 hrow'
    exact List.inj_on_of_nodup_map db.repoPackages.keysNodup hmem hmem' (Prod.ext (hr.trans hr'.symm) heq)
  intro k
  unfold Database.packageFiles
  rw [hrows]
  refine Option.ext fun filename => ?_
  rw [Dict.lookup_ofPairs_iff hkeys, List.mem_map]
  unfold Database.content
  rw [Option.map_map, Option.map_eq_some_iff]
  constructor
  · rintro ⟨row, hrow, heq⟩
    obtain ⟨hmem, hr⟩ := Database.mem_packagesOf.1 hrow
    obtain ⟨rfl, rfl⟩ := Prod.mk.inj heq
    exact ⟨row, by rw [← hr]; exact Table.get_of_mem hmem, rfl⟩
  · rintro ⟨row, hrow, rfl⟩
    obtain ⟨hmem, hpk⟩ := Table.get_eq_some_iff.1 hrow
    obtain ⟨hr, hk⟩ := Prod.mk.inj hpk
    exact ⟨row, Database.mem_packagesOf.2 ⟨hmem, hr⟩, by rw [← hk]; rfl⟩

/-- The packages were read behind the revision, and the repository has not been deleted since. -/
structure KeptIndex.Sound (netlocOk : Str → Bool) (sha256 : Bytes → Str) (db : Database) (r : Str) (kept : KeptIndex) :
    Prop where
  origin : ∃ before ops ops' db₀ db₁, Reached .empty before db₀ ∧ db₀.revision r = kept.revision.1 ∧ Reached db₀ ops db₁ ∧
    Lists kept.packages db₁ r ∧ Reached db₁ ops' db ∧ (ops ++ ops').any (deletes r) = false
  index : ∃ repo : RepoConfig, repo.id = r ∧ catalogIdentity sha256 repo.toRepoFields = kept.revision.2 ∧
    packagePathIndex netlocOk repo kept.packages = some kept.index

/-- What is kept for a visited repository is its catalog in one of the databases that a refresh has seen. -/
def KeptIndex.Fresh (netlocOk : Str → Bool) (seen : Database → Prop) (repo : RepoConfig) (kept : KeptIndex) : Prop :=
  ∃ db, seen db ∧ Lists kept.packages db repo.id ∧ packagePathIndex netlocOk repo kept.packages = some kept.index

theorem KeptIndex.Sound.store {r : Str} {kept : KeptIndex} (h : kept.Sound netlocOk sha256 db r) {op : RevisionOp}
    (hop : op.deletes r = false) : kept.Sound netlocOk sha256 (RevisionOp.apply db op) r := by
  obtain ⟨⟨before, ops, ops', db₀, db₁, hbefore, hrevision, hops, hlists, hops', hdeletes⟩, hindex⟩ := h
  refine ⟨⟨before, ops, ops' ++ [op], db₀, db₁, hbefore, hrevision, hops, hlists, .snoc hops' rfl, ?_⟩, hindex⟩
  rw [← List.append_assoc, List.any_append, hdeletes]
  simp [hop]

theorem KeptIndex.Fresh.mono {seen seen' : Database → Prop} {repo : RepoConfig} {kept : KeptIndex}
    (h : kept.Fresh netlocOk seen repo) (hseen : ∀ db, seen db → seen' db) : kept.Fresh netlocOk seen' repo := by
  obtain ⟨db, hdb, hrest⟩ := h
  exact ⟨db, hseen db hdb, hrest⟩

/-- **A revision that is back stands for what is kept.** -/
theorem KeptIndex.Sound.fresh (hsha256 : Function.Injective sha256) {since : Database} {repo : RepoConfig} {kept : KeptIndex}
    (h : kept.Sound netlocOk sha256 since repo.id)
    (hrevision : kept.revision = (since.revision repo.id, catalogIdentity sha256 repo.toRepoFields))
    {seen : Database → Prop} (hseen : seen since) : kept.Fresh netlocOk seen repo := by
  obtain ⟨⟨before, ops₁, ops₂, db₀, db₁, hbefore, hback, hops₁, hlists, hops₂, hdeletes⟩, built, hid, hidentity, hindex⟩ := h
  rw [hrevision] at hback hidentity
  have hsame : SameCatalog built.toRepoFields repo.toRepoFields := sameCatalog_of_identity hsha256 hid hidentity
  refine ⟨since, hseen, fun k => ?_, by rw [← hsame.packagePathIndex_eq, hindex]⟩
  rw [hlists k, content_eq_of_steady hbefore hops₁ hops₂ (.inl hdeletes) hback k]

end

/-! ## Runs -/

namespace ListenerSystem
variable {netlocOk : Str → Bool} {sha256 : Bytes → Str} {s s' s₁ : ListenerSystem} {a : ListenerAction}
  {actions : List ListenerAction}

/-- A refresh that starts sees the state that it starts in. -/
theorem sinceStart_start {config : Config} (hrun : Runs netlocOk sha256 new (actions ++ [.start config]) s) :
    SinceStart netlocOk sha256 (actions ++ [.start config]) s config s :=
  ⟨actions, [], [], rfl, fun _ h => absurd h List.not_mem_nil, hrun, .nil s⟩

theorem SinceStart.snoc {config : Config} (h : SinceStart netlocOk sha256 actions s config s₁)
    (hstep : s.Allows a ∧ step netlocOk sha256 s a = some s') (ha : ∀ config', a ≠ .start config') :
    SinceStart netlocOk sha256 (actions ++ [a]) s' config s₁ := by
  obtain ⟨before, during, after, rfl, hnone, hbefore, hafter⟩ := h
  refine ⟨before, during, after ++ [a], by simp, fun config' hmem => ?_, hbefore, .snoc hafter hstep⟩
  rw [← List.append_assoc] at hmem
  rcases List.mem_append.1 hmem with hmem | hmem
  · exact hnone config' hmem
  · exact ha config' (List.mem_singleton.1 hmem).symm

/-- A refresh under way sees the state that the run has reached. -/
theorem SinceStart.now {config : Config} (h : SinceStart netlocOk sha256 actions s config s₁)
    (hrun : Runs netlocOk sha256 new actions s) : SinceStart netlocOk sha256 actions s config s := by
  obtain ⟨before, during, after, rfl, hnone, -, -⟩ := h
  exact ⟨before, during ++ after, [], by simp, by simpa using hnone, hrun, .nil s⟩

/-- The databases that a refresh may have seen, by its configuration. -/
abbrev Seen := Config → Database → Prop

/-- The databases of the states since the refresh began. -/
def seenIn (netlocOk : Str → Bool) (sha256 : Bytes → Str) (actions : List ListenerAction) (s : ListenerSystem) : Seen :=
  fun config db => ∃ s₁, SinceStart netlocOk sha256 actions s config s₁ ∧ s₁.db = db

/-- What holds of a refresh under way. -/
structure RefreshSound (netlocOk : Str → Bool) (sha256 : Bytes → Str) (seen : Seen) (s : ListenerSystem)
    (refresh : IndexRefresh) : Prop where
  repos : refresh.visited ++ refresh.remaining = refresh.config.repos
  revisions : refresh.revisions = refresh.since.getSnapshotRevisions
  reached : ∃ before, Reached .empty before refresh.since
  ops : ∃ ops, Reached refresh.since ops s.db ∧ ∀ repo ∈ refresh.remaining, ops.any (deletes repo.id) = false
  keys : ∀ r ∈ s.kept.keys, r ∈ refresh.config.repos.map fun repo => repo.id
  since : seen refresh.config refresh.since
  now : seen refresh.config s.db
  visited : ∀ repo ∈ refresh.visited, ∃ kept, s.kept.lookup repo.id = some kept ∧
    kept.Fresh netlocOk (seen refresh.config) repo
  remaining : ∀ repo ∈ refresh.remaining, ∀ kept, s.kept.lookup repo.id = some kept →
    kept.Sound netlocOk sha256 refresh.since repo.id

structure Sound (netlocOk : Str → Bool) (sha256 : Bytes → Str) (seen : Seen) (s : ListenerSystem) : Prop where
  reached : ∃ before, Reached .empty before s.db ∧ ∀ op ∈ before, op.Clocked
  kept : ∀ r kept, s.kept.lookup r = some kept → kept.Sound netlocOk sha256 s.db r
  refresh : ∀ refresh, s.refresh = some refresh → RefreshSound netlocOk sha256 seen s refresh

theorem sound_new {seen : Seen} : Sound netlocOk sha256 seen new :=
  ⟨⟨[], .nil _, (fun op hop => by cases hop)⟩, (fun r kept hkept => by cases hkept),
    (fun refresh hrefresh => by cases hrefresh)⟩

section
variable {seen seen' : Seen}

theorem Sound.store (h : Sound netlocOk sha256 seen s) {op : RevisionOp} (hclocked : op.Clocked)
    (hknown : ∀ r, op.deletes r = true → ¬ s.Knows r) (hseen : ∀ config db, seen config db → seen' config db)
    (hnow : ∀ config, seen config s.db → seen' config (RevisionOp.apply s.db op)) :
    Sound netlocOk sha256 seen' { s with db := RevisionOp.apply s.db op } := by
  have hkeeps : ∀ r, s.Knows r → op.deletes r = false := fun r hr => Bool.eq_false_iff.2 fun hd => hknown r hd hr
  obtain ⟨⟨before, hbefore, hops⟩, hkept, hrefresh⟩ := h
  refine ⟨⟨before ++ [op], .snoc hbefore rfl, fun op' hop' => ?_⟩, fun r kept hr => ?_, fun refresh hr => ?_⟩
  · rcases List.mem_append.1 hop' with hop' | hop'
    · exact hops op' hop'
    · rw [List.mem_singleton.1 hop']
      exact hclocked
  · exact (hkept r kept hr).store (hkeeps r (.inl (Dict.mem_keys_of_lookup hr)))
  · obtain ⟨hrepos, hrevisions, hreached, ⟨ops, hsince, hdeletes⟩, hkeys, hstart, hlast, hvisited, hremaining⟩ :=
      hrefresh refresh hr
    refine ⟨hrepos, hrevisions, hreached, ⟨ops ++ [op], .snoc hsince rfl, fun repo hrepo => ?_⟩, hkeys,
      hseen _ _ hstart, hnow _ hlast, fun repo hrepo => ?_, hremaining⟩
    · have hop := hkeeps repo.id (.inr ⟨refresh, hr, List.mem_map.2 ⟨repo, hrepo, rfl⟩⟩)
      simp [List.any_append, hdeletes repo hrepo, hop]
    · obtain ⟨kept, hlookup, hfresh⟩ := hvisited repo hrepo
      exact ⟨kept, hlookup, hfresh.mono (hseen refresh.config)⟩

theorem Sound.start (h : Sound netlocOk sha256 seen s) (config : Config) (hnow : seen' config s.db) :
    Sound netlocOk sha256 seen'
      { s with
        kept := s.kept.filter fun entry => decide (entry.1 ∈ config.repos.map fun repo => repo.id)
        refresh := some ⟨config, s.db.getSnapshotRevisions, s.db, [], config.repos⟩ } := by
  have hlookup : ∀ r kept, Dict.lookup (s.kept.filter fun entry => decide (entry.1 ∈ config.repos.map fun repo => repo.id)) r =
      some kept → s.kept.lookup r = some kept ∧ r ∈ config.repos.map fun repo => repo.id := by
    intro r kept hr
    have hmem := List.mem_filter.1 (Dict.lookup_eq_some_iff.1 hr)
    exact ⟨Dict.lookup_eq_some_iff.2 hmem.1, of_decide_eq_true hmem.2⟩
  obtain ⟨⟨before, hbefore, hops⟩, hkept, -⟩ := h
  refine ⟨⟨before, hbefore, hops⟩, fun r kept hr => hkept r kept (hlookup r kept hr).1, fun refresh hr => ?_⟩
  cases hr
  refine ⟨rfl, rfl, ⟨before, hbefore⟩, ⟨[], .nil _, fun _ _ => rfl⟩, fun r hr => ?_, hnow, hnow,
    (fun repo hrepo => by cases hrepo), fun repo _ kept hr => hkept repo.id kept (hlookup repo.id kept hr).1⟩
  obtain ⟨⟨r, kept⟩, hmem, rfl⟩ := List.mem_map.1 hr
  exact of_decide_eq_true (List.mem_filter.1 hmem).2

variable {config : Config} {revisions : Dict Str Nat} {since : Database} {visited remaining : List RepoConfig}
  {repo : RepoConfig}

/-- The repository that is visited has an id of its own. -/
theorem RefreshSound.id_ne (h : RefreshSound netlocOk sha256 seen s ⟨config, revisions, since, visited, repo :: remaining⟩) :
    ∀ other ∈ visited ++ remaining, other.id ≠ repo.id := by
  have hnodup := config.idsNodup
  have hperm : (visited ++ repo :: remaining).Perm (repo :: (visited ++ remaining)) := List.perm_middle
  rw [← h.repos, (hperm.map fun repo => repo.id).nodup_iff, List.map_cons, List.nodup_cons] at hnodup
  exact fun other hother heq => hnodup.1 (List.mem_map.2 ⟨other, hother, heq⟩)

/-- An index under the revision that was read stays. -/
theorem Sound.skip (hsha256 : Function.Injective sha256) (h : Sound netlocOk sha256 seen s)
    (hrefresh : s.refresh = some ⟨config, revisions, since, visited, repo :: remaining⟩) {kept : KeptIndex}
    (hlookup : s.kept.lookup repo.id = some kept)
    (hrevision : kept.revision = (revisions.lookup repo.id, catalogIdentity sha256 repo.toRepoFields))
    (hseen : ∀ db, seen config db → seen' config db) :
    Sound netlocOk sha256 seen' { s with refresh := some ⟨config, revisions, since, visited ++ [repo], remaining⟩ } := by
  have hsound := h.refresh _ hrefresh
  obtain ⟨hrepos, hrevisions, hreached, ⟨ops, hsince, hdeletes⟩, hkeys, hstart, hlast, hvisited, hremaining⟩ := hsound
  dsimp only at hrepos hrevisions hsince hstart hlast
  refine ⟨h.reached, h.kept, fun refresh hr => ?_⟩
  cases hr
  refine ⟨by rw [← hrepos]; simp, hrevisions, hreached, ⟨ops, hsince, fun other hother => ?_⟩, hkeys, hseen _ hstart,
    hseen _ hlast, fun other hother => ?_, fun other hother => hremaining other (List.mem_cons_of_mem repo hother)⟩
  · exact hdeletes other (List.mem_cons_of_mem repo hother)
  · rcases List.mem_append.1 hother with hother | hother
    · obtain ⟨kept, hlookup, hfresh⟩ := hvisited other hother
      exact ⟨kept, hlookup, hfresh.mono hseen⟩
    · rw [List.mem_singleton.1 hother]
      rw [hrevisions, Database.lookup_getSnapshotRevisions] at hrevision
      have hkept := hremaining repo List.mem_cons_self kept hlookup
      exact ⟨kept, hlookup, hkept.fresh hsha256 hrevision (hseen _ hstart)⟩

/-- An index that is built is that of the catalog of now. -/
theorem Sound.build (h : Sound netlocOk sha256 seen s)
    (hrefresh : s.refresh = some ⟨config, revisions, since, visited, repo :: remaining⟩) {index : PackagePathIndex}
    (hindex : packagePathIndex netlocOk repo (s.db.packageFiles repo.id) = some index)
    (hseen : ∀ db, seen config db → seen' config db) : Sound netlocOk sha256 seen'
      { s with
        kept := s.kept.set repo.id
          ⟨(revisions.lookup repo.id, catalogIdentity sha256 repo.toRepoFields), s.db.packageFiles repo.id, index⟩
        refresh := some ⟨config, revisions, since, visited ++ [repo], remaining⟩ } := by
  have hsound := h.refresh _ hrefresh
  have hne := hsound.id_ne
  obtain ⟨hrepos, hrevisions, hreached, ⟨ops, hsince, hdeletes⟩, hkeys, hstart, hlast, hvisited, hremaining⟩ := hsound
  dsimp only at hrepos hrevisions hsince hstart hlast
  obtain ⟨before, hbefore, hclocked⟩ := h.reached
  have hlists : Lists (s.db.packageFiles repo.id) s.db repo.id :=
    lists_packageFiles (checked_of_reached hbefore hclocked) repo.id
  refine ⟨⟨before, hbefore, hclocked⟩, fun r kept hr => ?_, fun refresh hr => ?_⟩
  · rw [Dict.lookup_set] at hr
    split at hr
    · rename_i heq
      cases hr
      subst heq
      obtain ⟨earlier, hearlier⟩ := hreached
      refine ⟨⟨earlier, ops, [], since, s.db, hearlier, ?_, hsince, hlists, .nil _, ?_⟩, ⟨repo, rfl, rfl, hindex⟩⟩
      · rw [hrevisions, Database.lookup_getSnapshotRevisions]
      · rw [List.append_nil]
        exact hdeletes repo List.mem_cons_self
    · exact h.kept r kept hr
  · cases hr
    refine ⟨by rw [← hrepos]; simp, hrevisions, hreached, ⟨ops, hsince, fun other hother => ?_⟩, fun r hr => ?_,
      hseen _ hstart, hseen _ hlast, fun other hother => ?_, fun other hother kept hlookup => ?_⟩
    · exact hdeletes other (List.mem_cons_of_mem repo hother)
    · by_cases hmem : repo.id ∈ s.kept.keys
      · rw [Dict.keys_set_of_mem hmem] at hr
        exact hkeys r hr
      · rw [Dict.keys_set_of_not_mem hmem] at hr
        rcases List.mem_append.1 hr with hr | hr
        · exact hkeys r hr
        · rw [List.mem_singleton.1 hr]
          dsimp only
          rw [← hrepos]
          exact List.mem_map.2 ⟨repo, by simp, rfl⟩
    · rcases List.mem_append.1 hother with hother | hother
      · obtain ⟨kept, hlookup, hfresh⟩ := hvisited other hother
        exact ⟨kept, by rw [Dict.lookup_set, if_neg (hne other (List.mem_append_left _ hother)), hlookup],
          hfresh.mono hseen⟩
      · rw [List.mem_singleton.1 hother]
        exact ⟨_, by rw [Dict.lookup_set, if_pos rfl], s.db, hseen _ hlast, hlists, hindex⟩
    · rw [Dict.lookup_set, if_neg (hne other (List.mem_append_right _ hother))] at hlookup
      exact hremaining other (List.mem_cons_of_mem repo hother) kept hlookup

end

theorem sound_step (hsha256 : Function.Injective sha256) (hrun : Runs netlocOk sha256 new actions s)
    (h : Sound netlocOk sha256 (seenIn netlocOk sha256 actions s) s)
    (hstep : s.Allows a ∧ step netlocOk sha256 s a = some s') :
    Sound netlocOk sha256 (seenIn netlocOk sha256 (actions ++ [a]) s') s' := by
  have hrun' : Runs netlocOk sha256 new (actions ++ [a]) s' := .snoc hrun hstep
  have hseen : (∀ config', a ≠ .start config') → ∀ config db, seenIn netlocOk sha256 actions s config db →
      seenIn netlocOk sha256 (actions ++ [a]) s' config db := fun ha config db ⟨s₁, hsince, hdb⟩ =>
    ⟨s₁, hsince.snoc hstep ha, hdb⟩
  have hs := hstep.2
  cases a with
  | store op =>
    have hmono := hseen fun _ he => by cases he
    cases hs
    refine h.store hstep.1.1 hstep.1.2 hmono fun config hnow => ?_
    obtain ⟨s₁, hsince, -⟩ := hmono config s.db hnow
    exact ⟨_, hsince.now hrun', rfl⟩
  | start config =>
    simp only [step] at hs
    split at hs
    · cases hs
    · cases hs
      exact h.start config ⟨_, sinceStart_start hrun', rfl⟩
  | visit =>
    have hmono := hseen fun _ he => by cases he
    simp only [step] at hs
    split at hs
    · rename_i config revisions since visited repo remaining hrefresh
      split at hs
      · rename_i hkept
        cases hs
        cases hlookup : s.kept.lookup repo.id with
        | none =>
          rw [hlookup] at hkept
          cases hkept
        | some kept =>
          rw [hlookup] at hkept
          exact h.skip hsha256 hrefresh hlookup (of_decide_eq_true hkept) (hmono config)
      · obtain ⟨index, hindex, rfl⟩ := Option.map_eq_some_iff.1 hs
        exact h.build hrefresh hindex (hmono config)
    · cases hs

/-- **A refresh leaves every catalog as it was at some moment of it**: behind its loop there is an index for each repository
of the configuration and for no other, and it finds a key under a path exactly when the repository listed the key with that
path in one state of the run since the refresh began. -/
theorem refresh_fresh (hsha256 : Function.Injective sha256) (hrun : Runs netlocOk sha256 new actions s)
    {refresh : IndexRefresh} (hrefresh : s.refresh = some refresh) (hdone : refresh.remaining = []) :
    (∀ r ∈ s.kept.keys, r ∈ refresh.config.repos.map fun repo => repo.id) ∧
    ∀ repo ∈ refresh.config.repos, ∃ kept s₁, s.kept.lookup repo.id = some kept ∧
      SinceStart netlocOk sha256 actions s refresh.config s₁ ∧
      ∀ path key, key ∈ (kept.index.get path).getD [] ↔ ∃ filename,
        (s₁.db.content (repo.id, key)).map Prod.fst = some filename ∧ filename ≠ [] ∧
        storedPath netlocOk (packagePrefix repo ++ ['/']) filename = some path := by
  have hsound : Sound netlocOk sha256 (seenIn netlocOk sha256 actions s) s :=
    hrun.history (fun actions s => Sound netlocOk sha256 (seenIn netlocOk sha256 actions s) s) sound_new
      fun _ _ _ _ hrun h hstep => sound_step hsha256 hrun h hstep
  obtain ⟨hrepos, -, -, -, hkeys, -, -, hvisited, -⟩ := hsound.refresh refresh hrefresh
  rw [hdone, List.append_nil] at hrepos
  refine ⟨hkeys, fun repo hrepo => ?_⟩
  obtain ⟨kept, hlookup, -, ⟨s₁, hsince, rfl⟩, hlists, hindex⟩ := hvisited repo (hrepos ▸ hrepo)
  refine ⟨kept, s₁, hlookup, hsince, fun path key => ?_⟩
  rw [getD_packagePathIndex hindex, mem_keysAt]
  refine exists_congr fun filename => ?_
  rw [← Dict.lookup_eq_some_iff, hlists key]

theorem indexRows_isSome : ∀ (rows : List (Str × Str)) (index : PackagePathIndex),
    (indexRows (fun _ => true) rows index).isSome = true
  | [], _ => rfl
  | (key, filename) :: rows, index => by
    have hroute : ∀ url, routePath (fun _ => true) url = some (unquote (urlsplit url).path) := fun _ => if_pos rfl
    unfold indexRows
    rw [hroute, Option.bind_some]
    split_ifs <;> exact indexRows_isSome rows _

def firstSnapshot : RevisionOp := .recordSnapshot (.listing "r" [("k", "f", "A")]) { now := ['t'] } fun _ => []
def secondSnapshot : RevisionOp := .recordSnapshot (.listing "r" [("j", "g", "B")]) { now := ['u'] } fun _ => []

/-- A repository is given a snapshot and then an index; another snapshot comes while the next refresh is under way. -/
def twoRefreshes : List ListenerAction :=
  ((((([] ++ [.store firstSnapshot]) ++ [.start (oneRepo "http://h/u")]) ++ [.visit]) ++ [.start (oneRepo "http://h/u")]) ++
    [.store secondSnapshot]) ++ [.visit]

theorem refresh_fresh_reused : ∃ s refresh, Runs (fun _ => true) demoSha256 new twoRefreshes s ∧
    s.refresh = some refresh ∧ refresh.remaining = [] ∧ ∀ repo ∈ refresh.config.repos, ∃ kept s₁,
      s.kept.lookup repo.id = some kept ∧
      SinceStart (fun _ => true) demoSha256 twoRefreshes s refresh.config s₁ ∧
      ∀ path key, key ∈ (kept.index.get path).getD [] ↔ ∃ filename,
        (s₁.db.content (repo.id, key)).map Prod.fst = some filename ∧ filename ≠ [] ∧
        storedPath (fun _ => true) (packagePrefix repo ++ ['/']) filename = some path := by
  let db := RevisionOp.apply .empty firstSnapshot
  let repo := aptRepo "r" "http://h/u"
  let config := oneRepo "http://h/u"
  obtain ⟨index, hindex⟩ := Option.isSome_iff_exists.1
    (indexRows_isSome (db.packageFiles repo.id).rows (.new (packagePrefix repo ++ ['/'])))
  let built : KeptIndex := ⟨(db.getSnapshotRevisions.lookup repo.id, catalogIdentity demoSha256 repo.toRepoFields),
    db.packageFiles repo.id, index⟩
  let kept := Dict.set .empty repo.id built
  have hbuild : step (fun _ => true) demoSha256 ⟨db, .empty, some ⟨config, db.getSnapshotRevisions, db, [], [repo]⟩⟩
      .visit = some ⟨db, kept, some ⟨config, db.getSnapshotRevisions, db, [repo], []⟩⟩ := by
    have hpath : packagePathIndex (fun _ => true) repo (db.packageFiles repo.id) = some index := hindex
    simp only [step]
    rw [hpath]
    rfl
  have hstart : step (fun _ => true) demoSha256 ⟨db, kept, some ⟨config, db.getSnapshotRevisions, db, [repo], []⟩⟩
      (.start config) = some ⟨db, kept, some ⟨config, db.getSnapshotRevisions, db, [], [repo]⟩⟩ := rfl
  have hreuse : ∀ now, step (fun _ => true) demoSha256
      ⟨now, kept, some ⟨config, db.getSnapshotRevisions, db, [], [repo]⟩⟩ .visit =
        some ⟨now, kept, some ⟨config, db.getSnapshotRevisions, db, [repo], []⟩⟩ := fun now => by
    have hlookup : kept.lookup repo.id = some built := by
      rw [Dict.lookup_set, if_pos rfl]
    simp only [step]
    rw [hlookup, Option.any_some, decide_eq_true rfl]
    rfl
  have hclocked : ∀ c : Char, ([c] : Str) ≠ [] := fun c => List.cons_ne_nil c []
  have hrun : Runs (fun _ => true) demoSha256 new twoRefreshes _ :=
    .snoc (.snoc (.snoc (.snoc (.snoc (.snoc (.nil _) ⟨⟨hclocked _, fun _ h => by cases h⟩, rfl⟩) ⟨trivial, rfl⟩)
      ⟨trivial, hbuild⟩) ⟨trivial, hstart⟩) ⟨⟨hclocked _, fun _ h => by cases h⟩, rfl⟩) ⟨trivial, hreuse _⟩
  exact ⟨_, _, hrun, rfl, rfl, (refresh_fresh demoSha256_injective hrun rfl rfl).2⟩

end ListenerSystem
end RepoWatch
