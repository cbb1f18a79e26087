import RepoWatch.Revisions
import RepoWatch.PurgeRecords
/-!
# Demand — which packages are warmed because somebody asked for them

Demand is recorded by name and source: `record_interest` looks the name of a key up when it is called, and
`interested_keys` looks the keys of a name up when it is asked.  In between snapshots rename, drop and add keys and the
repository may move to another source and back.  `DemandOp.mem_apply` says what one operation does to the recorded
demand; from it, `interestedKeys_exact` says which calls a key of the current catalog owes its demand to.
-/
namespace RepoWatch

open Lib

/-- A row of `package_interest`; the primary key is all of it. -/
structure InterestRow where
  repoId : Str
  sourceIdentity : Str
  packageName : Str
  deriving DecidableEq

abbrev InterestTable := Table InterestRow InterestRow id

/-- The database and the table `package_interest`. -/
structure DemandStore where
  db : Database
  packageInterest : InterestTable

theorem mem_insertOrIgnore {t : InterestTable} {x row : InterestRow} :
    x ∈ (t.insertOrIgnore row).rows ↔ x ∈ t.rows ∨ x = row := by
  rw [Table.mem_rows_iff, Table.mem_rows_iff, Table.get_insertOrIgnore]
  by_cases hx : x = row
  · subst hx
    cases h : t.get x with
    | none => simp [h]
    | some y =>
      obtain rfl : y = x := Table.key_of_get h
      simp [h]
  · simp [hx]

theorem mem_foldl_insertOrIgnore {x : InterestRow} : ∀ (rows : List InterestRow) (t : InterestTable),
    x ∈ (rows.foldl Table.insertOrIgnore t).rows ↔ x ∈ t.rows ∨ x ∈ rows
  | [], t => by simp
  | row :: rows, t => by
    rw [List.foldl_cons, mem_foldl_insertOrIgnore rows, mem_insertOrIgnore, List.mem_cons, or_assoc]

namespace Database

/-- The identity under which the catalog of a repository was recorded. -/
def identity (db : Database) (repoId : Str) : Option Str := (db.repoState.get repoId).bind RepoState.sourceIdentity

/-- The name that is stored for a package. -/
def storedName (db : Database) (repoId key : Str) : Option Str :=
  (db.repoPackages.get (repoId, key)).bind PackageRow.packageName

/-- The rows that `record_interest` selects for one key: at most one, for the keys of both tables are given. -/
def interestRow (db : Database) (repoId identity key : Str) : Option InterestRow :=
  match db.repoPackages.get (repoId, key), db.repoState.get repoId with
  | some p, some s =>
    match p.packageName with
    | some name => if s.sourceIdentity = some identity ∧ name ≠ [] then some ⟨p.repoId, identity, name⟩ else none
    | none => none
  | _, _ => none

/-- What `_package_interest` seeds: the named packages of attributable sources that a client has downloaded. -/
def seedInterest (db : Database) (downloaded : Str → Str → Bool) : InterestTable :=
  (db.repoPackages.rows.filterMap fun p =>
    match p.packageName, db.identity p.repoId with
    | some name, some identity =>
      if name ≠ [] ∧ identity ≠ [] ∧ downloaded p.repoId p.packageKey = true then some ⟨p.repoId, identity, name⟩
      else none
    | _, _ => none).foldl Table.insertOrIgnore .empty

/-- `schema._package_interest`: a table that is there is left as it is. -/
def packageInterest (db : Database) (downloaded : Str → Str → Bool) : Option InterestTable → InterestTable
  | some table => table
  | none => db.seedInterest downloaded

/-- `CacheStore.remove_warmed_package`. -/
def removeWarmedPackage (db : Database) (repoId key : Str) : Database :=
  { db with warmedPackages := db.warmedPackages.delete (repoId, key) }

/-- `CacheStore.prune_warmed_packages`: the expired records, and the artifacts that neither a package nor a record owns. -/
def pruneWarmedPackages (db : Database) (cutoff : Str) : Database :=
  let warmed := db.warmedPackages.filter fun r => !decide (r.warmedAt < cutoff)
  { db with
    warmedPackages := warmed
    nixArtifacts := db.nixArtifacts.filter fun a =>
      (db.repoPackages.get (a.repoId, a.packageKey)).isSome || (warmed.get (a.repoId, a.packageKey)).isSome }

end Database

namespace DemandStore

def empty : DemandStore := ⟨.empty, .empty⟩

/-- `CacheStore.record_interest`. -/
def recordInterest (st : DemandStore) (repoId : Str) (keys : List Str) (identity : Str) : DemandStore :=
  { st with packageInterest :=
      (keys.filterMap (st.db.interestRow repoId identity)).foldl Table.insertOrIgnore st.packageInterest }

/-- `SELECT package_key FROM nix_artifacts WHERE repo_id=? AND filename=?`. -/
def artifactKeys (st : DemandStore) (repoId filename : Str) : List Str :=
  (st.db.nixArtifacts.rows.filter fun a => a.repoId = repoId ∧ a.filename = filename).map NixArtifactRow.packageKey

/-- `CacheStore.record_artifact_interest`. -/
def recordArtifactInterest (st : DemandStore) (repoId filename identity : Str) : DemandStore :=
  st.recordInterest repoId (st.artifactKeys repoId filename) identity

/-- `CacheStore.interested_keys`. -/
def interestedKeys (st : DemandStore) (repoId identity : Str) : List Str :=
  ((st.db.packagesOf repoId).filter fun p => st.packageInterest.rows.any fun i =>
    decide (i.repoId = p.repoId ∧ some i.packageName = p.packageName ∧ i.sourceIdentity = identity) &&
      st.db.repoState.rows.any fun s =>
        decide (s.repoId = p.repoId ∧ s.sourceIdentity = some i.sourceIdentity)).map PackageRow.packageKey

/-- `CacheStore.delete_repo_rows`. -/
def deleteCacheRows (st : DemandStore) (repoId : Str) : DemandStore :=
  ⟨st.db.deleteCacheRows repoId, st.packageInterest.filter fun i => i.repoId ≠ repoId⟩

/-- `cleanup.purge_orphaned_repos`. -/
def purgeOrphanedRepos (st : DemandStore) (active repoIds : List Str) : DemandStore :=
  repoIds.foldl (fun st repoId =>
    if repoId ∈ active then st else deleteCacheRows { st with db := st.db.deleteRepoRows repoId } repoId) st

end DemandStore

/-! ## Operations -/

inductive DemandOp where
  | recordSnapshot (s : RepoSnapshot) (m : CheckMeta) (uuid : Str → Str)
  | recordKeyExpiry (repoId : Str) (expiresAt : Option Str) (isKnown : Option Bool)
  | touchLastCheck (repoId now : Str)
  | recordInterest (repoId : Str) (keys : List Str) (identity : Str)
  | recordArtifactInterest (repoId filename identity : Str)
  | recordWarmedPackage (repoId key filename : Str) (ok : Bool) (httpStatus : Option Int) (source now revision : Str)
  | recordNixArtifacts (repoId packageKey : Str) (artifacts : List Artifact)
  | touchNixArtifact (repoId filename now : Str) (revision : Str × Str → Str)
  -- the `UPDATE` of `update_nix_trust`
  | failWarmed (repoId : Str) (revision : Str × Str → Str)
  | finishReplacement (repoId key revision : Str) (error : Option Str)
  | removeWarmedPackage (repoId key : Str)
  | removePurgedRecords (repoId : Str) (records : Records) (resolved : List Str)
  | pruneWarmedPackages (cutoff : Str)
  -- `prune_events` and `prune_events_by_size`, whatever they leave of the history
  | pruneEvents (kept : List EventRow → List EventRow)
  | migrate (downloaded : Str → Str → Bool)
  | deleteRepoRows (repoId : Str)
  | deleteCacheRows (repoId : Str)
  | purgeOrphanedRepos (active repoIds : List Str)

namespace DemandOp

def apply (st : DemandStore) : DemandOp → DemandStore
  | recordSnapshot s m uuid => { st with db := (st.db.recordSnapshot s m uuid).1 }
  | recordKeyExpiry repoId expiresAt isKnown => { st with db := st.db.recordKeyExpiry repoId expiresAt isKnown }
  | touchLastCheck repoId now => { st with db := st.db.touchLastCheck repoId now }
  | recordInterest repoId keys identity => st.recordInterest repoId keys identity
  | recordArtifactInterest repoId filename identity => st.recordArtifactInterest repoId filename identity
  | recordWarmedPackage repoId key filename ok httpStatus source now revision =>
    { st with db := st.db.recordWarmedPackage repoId key filename ok httpStatus source now revision }
  | recordNixArtifacts repoId packageKey artifacts =>
    { st with db := st.db.recordNixArtifacts repoId packageKey artifacts }
  | touchNixArtifact repoId filename now revision =>
    { st with db := st.db.touchNixArtifact repoId filename now revision }
  | failWarmed repoId revision => { st with db := st.db.failWarmed repoId revision }
  | finishReplacement repoId key revision error =>
    { st with db := st.db.finishReplacement repoId key revision error }
  | removeWarmedPackage repoId key => { st with db := st.db.removeWarmedPackage repoId key }
  | removePurgedRecords repoId records resolved => { st with db := st.db.removePurgedRecords repoId records resolved }
  | pruneWarmedPackages cutoff => { st with db := st.db.pruneWarmedPackages cutoff }
  | pruneEvents kept => { st with db := { st.db with repoEvents := kept st.db.repoEvents } }
  -- migrated before: the table is there
  | migrate downloaded => { st with packageInterest := st.db.packageInterest downloaded (some st.packageInterest) }
  | deleteRepoRows repoId => { st with db := st.db.deleteRepoRows repoId }
  | deleteCacheRows repoId => st.deleteCacheRows repoId
  | purgeOrphanedRepos active repoIds => st.purgeOrphanedRepos active repoIds

/-- The call of `record_interest` that an operation makes. -/
def interestCall (st : DemandStore) : DemandOp → Option (Str × List Str × Str)
  | recordInterest repoId keys identity => some (repoId, keys, identity)
  | recordArtifactInterest repoId filename identity => some (repoId, st.artifactKeys repoId filename, identity)
  | _ => none

/-- The operation deletes the rows that the cache keeps for a repository, its demand among them. -/
def deletes (r : Str) : DemandOp → Bool
  | deleteCacheRows repoId => repoId == r
  | purgeOrphanedRepos active repoIds => repoIds.contains r && !active.contains r
  | _ => false

/-- The operation calls `record_interest` with a key of the repository that has the name, under its identity. -/
def Registers (st : DemandStore) (op : DemandOp) (r identity name : Str) : Prop :=
  ∃ keys, op.interestCall st = some (r, keys, identity) ∧ st.db.identity r = some identity ∧
    ∃ key ∈ keys, st.db.storedName r key = some name

end DemandOp

namespace DemandStore

/-- The store after a sequence of operations on a new database. -/
def run (ops : List DemandOp) : DemandStore := ops.foldl DemandOp.apply .empty

/-- Some operation since the last deletion of the repository registered the name. -/
def Subscribed (ops : List DemandOp) (r identity name : Str) : Prop :=
  ∃ before op after, ops = before ++ op :: after ∧ op.Registers (run before) r identity name ∧
    ∀ op' ∈ after, op'.deletes r = false

end DemandStore

/-! ## What one operation does to the recorded demand -/

theorem Database.interestRow_eq_some {db : Database} {repoId identity key : Str} {row : InterestRow} :
    db.interestRow repoId identity key = some row ↔ row.repoId = repoId ∧ row.sourceIdentity = identity ∧
      row.packageName ≠ [] ∧ db.identity repoId = some identity ∧ db.storedName repoId key = some row.packageName := by
  obtain ⟨r, i, n⟩ := row
  unfold interestRow Database.identity storedName
  cases hp : db.repoPackages.get (repoId, key) with
  | none => simp
  | some p =>
    have hpk : p.repoId = repoId := congrArg Prod.fst (Table.key_of_get hp)
    cases hs : db.repoState.get repoId with
    | none => simp
    | some s =>
      cases hn : p.packageName with
      | none => simp [hn]
      | some name =>
        simp only [Option.bind_some, hn, hpk, Option.some.injEq, Option.ite_none_right_eq_some, InterestRow.mk.injEq]
        constructor
        · rintro ⟨⟨hid, hne⟩, rfl, rfl, rfl⟩
          exact ⟨rfl, rfl, hne, hid, rfl⟩
        · rintro ⟨rfl, rfl, hne, hid, rfl⟩
          exact ⟨⟨hid, hne⟩, rfl, rfl, rfl⟩

namespace DemandStore
variable {st : DemandStore} {row : InterestRow}

theorem mem_recordInterest {repoId identity : Str} {keys : List Str} :
    row ∈ (st.recordInterest repoId keys identity).packageInterest.rows ↔ row ∈ st.packageInterest.rows ∨
      row.repoId = repoId ∧ row.sourceIdentity = identity ∧ row.packageName ≠ [] ∧
        st.db.identity repoId = some identity ∧ ∃ key ∈ keys, st.db.storedName repoId key = some row.packageName := by
  unfold recordInterest
  rw [mem_foldl_insertOrIgnore, List.mem_filterMap]
  simp only [Database.interestRow_eq_some]
  constructor
  · rintro (hrow | ⟨key, hkey, hr, hi, hne, hid, hname⟩)
    · exact Or.inl hrow
    · exact Or.inr ⟨hr, hi, hne, hid, key, hkey, hname⟩
  · rintro (hrow | ⟨hr, hi, hne, hid, key, hkey, hname⟩)
    · exact Or.inl hrow
    · exact Or.inr ⟨key, hkey, hr, hi, hne, hid, hname⟩

theorem mem_deleteCacheRows {repoId : Str} :
    row ∈ (st.deleteCacheRows repoId).packageInterest.rows ↔ row ∈ st.packageInterest.rows ∧ row.repoId ≠ repoId := by
  simp [deleteCacheRows]

theorem mem_purgeOrphanedRepos (active : List Str) : ∀ (repoIds : List Str) (st : DemandStore),
    row ∈ (st.purgeOrphanedRepos active repoIds).packageInterest.rows ↔
      row ∈ st.packageInterest.rows ∧ ¬ (row.repoId ∈ repoIds ∧ row.repoId ∉ active)
  | [], st => by simp [purgeOrphanedRepos]
  | repoId :: repoIds, st => by
    have ih := mem_purgeOrphanedRepos active repoIds
    unfold purgeOrphanedRepos at ih ⊢
    rw [List.foldl_cons, ih]
    by_cases ha : repoId ∈ active
    · have hactive : row.repoId = repoId → row.repoId ∈ active := fun h => h ▸ ha
      rw [if_pos ha, List.mem_cons]
      tauto
    · have hgone : row.repoId = repoId → row.repoId ∉ active := fun h => h ▸ ha
      rw [if_neg ha, mem_deleteCacheRows, List.mem_cons]
      tauto

end DemandStore

namespace DemandOp
variable {st : DemandStore} {op : DemandOp} {row : InterestRow}

/-- An operation without a call and without a deletion leaves the recorded demand. -/
theorem packageInterest_apply (hcall : op.interestCall st = none) (hdel : op.deletes row.repoId = false) :
    row ∈ (op.apply st).packageInterest.rows ↔ row ∈ st.packageInterest.rows := by
  cases op with
  | recordInterest repoId keys identity => cases hcall
  | recordArtifactInterest repoId filename identity => cases hcall
  | deleteCacheRows repoId =>
    have hne : row.repoId ≠ repoId := fun h => by simp [deletes, h] at hdel
    exact DemandStore.mem_deleteCacheRows.trans (and_iff_left hne)
  | purgeOrphanedRepos active repoIds =>
    refine (DemandStore.mem_purgeOrphanedRepos active repoIds st).trans (and_iff_left ?_)
    simpa [deletes] using hdel
  | _ => rfl

theorem gone_of_deletes (hdel : op.deletes row.repoId = true) : row ∉ (op.apply st).packageInterest.rows := by
  cases op with
  | deleteCacheRows repoId =>
    have heq : repoId = row.repoId := by simpa [deletes] using hdel
    exact fun h => (DemandStore.mem_deleteCacheRows.1 h).2 heq.symm
  | purgeOrphanedRepos active repoIds =>
    have hgone : row.repoId ∈ repoIds ∧ row.repoId ∉ active := by simpa [deletes] using hdel
    exact fun h => ((DemandStore.mem_purgeOrphanedRepos active repoIds st).1 h).2 hgone
  | _ => cases hdel

theorem deletes_eq_false_of_call {call : Str × List Str × Str} (h : op.interestCall st = some call) (r : Str) :
    op.deletes r = false := by
  cases op <;> first | rfl | cases h

/-- **What an operation leaves of the recorded demand**: what was there and is not deleted, and what it registers. -/
theorem mem_apply (st : DemandStore) (op : DemandOp) (row : InterestRow) : row ∈ (op.apply st).packageInterest.rows ↔
    (row ∈ st.packageInterest.rows ∧ op.deletes row.repoId = false) ∨
      (row.packageName ≠ [] ∧ op.Registers st row.repoId row.sourceIdentity row.packageName) := by
  cases hcall : op.interestCall st with
  | none =>
    have hno : ¬ op.Registers st row.repoId row.sourceIdentity row.packageName := by
      rintro ⟨keys, hkeys, -⟩
      rw [hcall] at hkeys
      cases hkeys
    cases hdel : op.deletes row.repoId with
    | false => simp [packageInterest_apply hcall hdel, hno]
    | true => simp [gone_of_deletes hdel, hno]
  | some call =>
    obtain ⟨repoId, keys, identity⟩ := call
    have happly : (op.apply st).packageInterest = (st.recordInterest repoId keys identity).packageInterest := by
      cases op <;> first | (cases hcall; rfl) | cases hcall
    rw [happly, DemandStore.mem_recordInterest, deletes_eq_false_of_call hcall, eq_self_iff_true, and_true]
    refine or_congr_right ?_
    unfold Registers
    rw [hcall]
    constructor
    · rintro ⟨rfl, rfl, hne, hid, key, hkey, hname⟩
      exact ⟨hne, keys, rfl, hid, key, hkey, hname⟩
    · rintro ⟨hne, keys', hcall', hid, hkey⟩
      cases hcall'
      exact ⟨rfl, rfl, hne, hid, hkey⟩

end DemandOp

/-! ## Every run -/

namespace DemandStore

theorem run_append (ops : List DemandOp) (op : DemandOp) : run (ops ++ [op]) = op.apply (run ops) := by
  rw [run, List.foldl_append]
  rfl

theorem not_subscribed_nil {r identity name : Str} : ¬ Subscribed [] r identity name := by
  rintro ⟨before, op, after, h, -⟩
  simp at h

/-- A subscription ends with a registration, or continues an earlier one through an operation that deletes nothing. -/
theorem subscribed_append {ops : List DemandOp} {op : DemandOp} {r identity name : Str} :
    Subscribed (ops ++ [op]) r identity name ↔
      (Subscribed ops r identity name ∧ op.deletes r = false) ∨ op.Registers (run ops) r identity name := by
  constructor
  · rintro ⟨before, op', after, hsplit, hreg, hafter⟩
    rcases List.eq_nil_or_concat' after with rfl | ⟨after, last, rfl⟩
    · obtain ⟨rfl, hlast⟩ := List.append_inj' hsplit rfl
      cases hlast
      exact Or.inr hreg
    · rw [← List.cons_append, ← List.append_assoc] at hsplit
      obtain ⟨hops, hlast⟩ := List.append_inj' hsplit rfl
      cases hlast
      exact Or.inl ⟨⟨before, op', after, hops, hreg, fun o ho => hafter o (List.mem_append_left _ ho)⟩,
        hafter op (List.mem_append_right _ List.mem_cons_self)⟩
  · rintro (⟨⟨before, op', after, rfl, hreg, hafter⟩, hdel⟩ | hreg)
    · refine ⟨before, op', after ++ [op], by simp, hreg, fun o ho => ?_⟩
      rcases List.mem_append.1 ho with ho | ho
      · exact hafter o ho
      · rw [List.mem_singleton.1 ho]
        exact hdel
    · exact ⟨ops, op, [], rfl, hreg, fun o ho => by cases ho⟩

/-- **The recorded demand of a run** is what was subscribed under a name. -/
theorem mem_packageInterest_run (row : InterestRow) (ops : List DemandOp) : row ∈ (run ops).packageInterest.rows ↔
    row.packageName ≠ [] ∧ Subscribed ops row.repoId row.sourceIdentity row.packageName := by
  induction ops using List.reverseRecOn with
  | nil => exact iff_of_false (by simp [run, empty, Table.empty]) fun h => not_subscribed_nil h.2
  | append_singleton ops op ih =>
    rw [run_append, DemandOp.mem_apply, ih, subscribed_append, and_assoc, ← and_or_left]

/-- `interested_keys` joins the catalog, the recorded demand and the recorded source. -/
theorem mem_interestedKeys {st : DemandStore} {r identity key : Str} : key ∈ st.interestedKeys r identity ↔
    ∃ name, st.db.storedName r key = some name ∧ st.db.identity r = some identity ∧
      (⟨r, identity, name⟩ : InterestRow) ∈ st.packageInterest.rows := by
  unfold interestedKeys Database.storedName Database.identity
  simp only [List.mem_map, List.mem_filter, Database.mem_packagesOf, List.any_eq_true, Bool.and_eq_true,
    decide_eq_true_eq]
  constructor
  · rintro ⟨p, ⟨⟨hp, rfl⟩, ⟨r', i, n⟩, hi, ⟨rfl, hname, rfl⟩, s, hs, hsid, hsource⟩, rfl⟩
    refine ⟨n, ?_, ?_, hi⟩
    · rw [show (p.repoId, p.packageKey) = p.pk from rfl, Table.get_of_mem hp]
      exact hname.symm
    · rw [← hsid, show s.repoId = RepoState.repoId s from rfl, Table.get_of_mem hs]
      exact hsource
  · rintro ⟨name, hname, hid, hrow⟩
    obtain ⟨p, hp, hname⟩ := Option.bind_eq_some_iff.1 hname
    obtain ⟨s, hs, hsource⟩ := Option.bind_eq_some_iff.1 hid
    have hpk := Table.key_of_get hp
    obtain ⟨hprepo, hpkey⟩ := Prod.mk.inj hpk
    exact ⟨p, ⟨⟨Table.mem_of_get hp, hprepo⟩, _, hrow, ⟨hprepo.symm, hname.symm, rfl⟩, s, Table.mem_of_get hs,
      (Table.key_of_get hs).trans hprepo.symm, hsource⟩, hpkey⟩

/-- Operations without a call and without a deletion leave what is recorded of a repository. -/
theorem packageInterest_append {r : Str} {row : InterestRow} (hrow : row.repoId = r) (ops : List DemandOp) :
    ∀ more : List DemandOp, (∀ op ∈ more, op.deletes r = false ∧ ∀ st, op.interestCall st = none) →
      (row ∈ (run (ops ++ more)).packageInterest.rows ↔ row ∈ (run ops).packageInterest.rows) := by
  intro more
  induction more using List.reverseRecOn with
  | nil => simp
  | append_singleton more op ih =>
    intro hmore
    obtain ⟨hdel, hcall⟩ := hmore op (List.mem_append_right _ List.mem_cons_self)
    rw [← List.append_assoc, run_append, DemandOp.packageInterest_apply (hcall _) (hrow ▸ hdel)]
    exact ih fun o ho => hmore o (List.mem_append_left _ ho)

/-- **Demand is scoped to source and name**: a key of the catalog is demanded under an identity exactly when that is the
recorded one, the key has a name, and since the last deletion some call listed a key that had this name then, under this
identity.  Whatever neither calls nor deletes, a change to another source and back included, changes no demand. -/
theorem interestedKeys_exact (ops : List DemandOp) (r identity key : Str) :
    (key ∈ (run ops).interestedKeys r identity ↔ ∃ name, (run ops).db.storedName r key = some name ∧ name ≠ [] ∧
      (run ops).db.identity r = some identity ∧ Subscribed ops r identity name) ∧
    ∀ more : List DemandOp, (∀ op ∈ more, op.deletes r = false ∧ ∀ st, op.interestCall st = none) →
      (run (ops ++ more)).db.storedName r key = (run ops).db.storedName r key →
      (run (ops ++ more)).db.identity r = (run ops).db.identity r →
      (key ∈ (run (ops ++ more)).interestedKeys r identity ↔ key ∈ (run ops).interestedKeys r identity) := by
  constructor
  · rw [mem_interestedKeys]
    refine exists_congr fun name => and_congr_right fun _ => ?_
    rw [mem_packageInterest_run, ← and_assoc, and_comm (b := name ≠ []), and_assoc]
  · intro more hmore hname hid
    rw [mem_interestedKeys, mem_interestedKeys, hname, hid]
    refine exists_congr fun name => and_congr_right fun _ => and_congr_right fun _ => ?_
    exact packageInterest_append rfl ops more hmore

/-- A snapshot of the repository `r` from a source that lists the key `key` under the name `n`. -/
def namedSnapshot (source key : String) : DemandOp :=
  .recordSnapshot ⟨"r".toList, .ofPairs [(key.toList, "f".toList)], .ofPairs [(key.toList, "n".toList)], .empty⟩
    { now := [], sourceIdentity := some source.toList } fun _ => []

/-- The package is demanded again when the repository is back at its source, after its record has expired. -/
theorem interestedKeys_back : "k".toList ∈
    (run ([namedSnapshot "s" "k", .recordInterest "r".toList ["k".toList] "s".toList] ++
      [namedSnapshot "t" "j", .pruneWarmedPackages "9".toList, namedSnapshot "s" "k"])).interestedKeys
      "r".toList "s".toList := by
  refine ((interestedKeys_exact [namedSnapshot "s" "k", .recordInterest "r".toList ["k".toList] "s".toList]
    "r".toList "s".toList "k".toList).2 _ (fun op hop => ?_) (by decide) (by decide)).2 (by decide)
  rcases hop with _ | ⟨_, _ | ⟨_, _ | ⟨_, hop⟩⟩⟩
  · exact ⟨rfl, fun _ => rfl⟩
  · exact ⟨rfl, fun _ => rfl⟩
  · exact ⟨rfl, fun _ => rfl⟩
  · cases hop

end DemandStore
end RepoWatch
