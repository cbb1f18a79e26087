import RepoWatch.Config
import RepoWatch.Database
/-!
# NixStore — artifacts, their owners and the trust policy of Nix repositories

A Nix package is a closure of files: its narinfo and the artifacts discovered from it.  The store remembers which package
owns which artifact, and under which signature policy the warm records of a repository were written.
-/
namespace RepoWatch

open Lib

/-- A Nix repository entry. -/
structure NixRepo where
  repo : RepoConfig
  verifySignature : Bool
  nixPublicKeys : List Str
  nixMaxPaths : Nat

/-- A file of a closure, with its hash and size where they are known. -/
structure Artifact where
  filename : Str
  contentHash : Option Str := none
  size : Option Nat := none
  deriving DecidableEq

namespace Database
variable (db : Database)

/-- `CacheStore.record_nix_artifacts`. -/
def recordNixArtifacts (repoId packageKey : Str) (artifacts : List Artifact) : Database :=
  { db with
    nixArtifacts := db.nixArtifacts.upsertAll
      (artifacts.map fun a => ⟨repoId, packageKey, a.filename, a.contentHash, a.size⟩) }

/-- `CacheStore.get_nix_artifacts`. -/
def getNixArtifacts (repoId packageKey : Str) : List Artifact :=
  (db.nixArtifacts.rows.filter fun a => a.repoId = repoId ∧ a.packageKey = packageKey).map fun a =>
    ⟨a.filename, a.contentHash, a.size⟩

/-- `CacheStore.nix_shared_files`. -/
def nixSharedFiles (repoId : Str) (excludedKeys : List Str) : List Str :=
  (db.nixArtifacts.rows.filter fun a =>
    a.repoId = repoId ∧ (db.repoPackages.get (a.repoId, a.packageKey)).isSome ∧ a.packageKey ∉ excludedKeys).map
    NixArtifactRow.filename

/-- `CacheStore.nix_has_unknown_owners`. -/
def nixHasUnknownOwners (repoId : Str) (excludedKeys : List Str) : Bool :=
  (db.packagesOf repoId).any fun p =>
    decide (p.packageKey ∉ excludedKeys) && !db.nixArtifacts.rows.any fun a =>
      decide (a.repoId = p.repoId ∧ a.packageKey = p.packageKey)

/-- The row after a request for an artifact: a successful one whose package owns the artifact is renewed. -/
def touchedRow (repoId filename now : Str) (revision : Str × Str → Str) (r : WarmedRow) : WarmedRow :=
  if r.repoId = repoId ∧ r.ok = true ∧ (db.nixArtifacts.get (repoId, r.packageKey, filename)).isSome then
    { r with warmedAt := now, revision := revision r.pk }
  else r

theorem pk_touchedRow (repoId filename now : Str) (revision : Str × Str → Str) (r : WarmedRow) :
    (db.touchedRow repoId filename now revision r).pk = r.pk := by
  unfold touchedRow
  split <;> rfl

/-- `CacheStore.touch_nix_artifact`; `revision` draws a random blob for each row it updates. -/
def touchNixArtifact (repoId filename now : Str) (revision : Str × Str → Str) : Database :=
  { db with
    warmedPackages := db.warmedPackages.update (db.touchedRow repoId filename now revision)
      (db.pk_touchedRow repoId filename now revision) }

/-- The row of a repository whose trust policy changed. -/
def failedRow (repoId : Str) (revision : Str × Str → Str) (r : WarmedRow) : WarmedRow :=
  if r.repoId = repoId then { r with ok := false, revision := revision r.pk } else r

theorem pk_failedRow (repoId : Str) (revision : Str × Str → Str) (r : WarmedRow) :
    (failedRow repoId revision r).pk = r.pk := by
  unfold failedRow
  split <;> rfl

/-- `UPDATE warmed_packages SET status='failed', revision=… WHERE repo_id=?`. -/
def failWarmed (repoId : Str) (revision : Str × Str → Str) : Database :=
  { db with
    warmedPackages := db.warmedPackages.update (failedRow repoId revision) (pk_failedRow repoId revision) }

variable {db}

theorem mem_getNixArtifacts {repoId packageKey : Str} {a : Artifact} : a ∈ db.getNixArtifacts repoId packageKey ↔
    (⟨repoId, packageKey, a.filename, a.contentHash, a.size⟩ : NixArtifactRow) ∈ db.nixArtifacts.rows := by
  unfold getNixArtifacts
  simp only [List.mem_map, List.mem_filter, decide_eq_true_eq]
  constructor
  · rintro ⟨row, ⟨hrow, rfl, rfl⟩, rfl⟩
    exact hrow
  · intro hrow
    exact ⟨_, ⟨hrow, rfl, rfl⟩, rfl⟩

theorem get_touchNixArtifact {repoId filename now : Str} {revision : Str × Str → Str} (pk : Str × Str) :
    (db.touchNixArtifact repoId filename now revision).warmedPackages.get pk =
      (db.warmedPackages.get pk).map (db.touchedRow repoId filename now revision) :=
  Table.get_update db.warmedPackages _ (db.pk_touchedRow repoId filename now revision) pk

theorem get_failWarmed {repoId : Str} {revision : Str × Str → Str} (pk : Str × Str) :
    (db.failWarmed repoId revision).warmedPackages.get pk = (db.warmedPackages.get pk).map (failedRow repoId revision) :=
  Table.get_update db.warmedPackages _ (pk_failedRow repoId revision) pk

end Database

/-! ## The trust policy -/

/-- `json.dumps([verify, sorted(set(keys)), source])`. -/
structure TrustPolicy where
  verify : Bool
  keys : List Str
  source : Option Str
  deriving DecidableEq

/-- The database and the table `nix_trust`. -/
structure NixStore where
  db : Database
  nixTrust : Dict Str TrustPolicy

def trustPolicy (verify : Bool) (keys : List Str) (source : Option Str) : TrustPolicy :=
  ⟨verify, sortedStr keys.dedup, source⟩

namespace NixStore

/-- Whether `update_nix_trust` finds another policy than the one it is given. -/
def distrusts (store : NixStore) (repoId : Str) (policy : TrustPolicy) : Bool :=
  decide (store.nixTrust.lookup repoId ≠ some policy)

/-- `CacheStore.update_nix_trust`. -/
def updateNixTrust (store : NixStore) (repoId : Str) (verify : Bool) (keys : List Str) (source : Option Str)
    (revision : Str × Str → Str) : NixStore :=
  let policy := trustPolicy verify keys source
  if store.distrusts repoId policy then
    ⟨store.db.failWarmed repoId revision, store.nixTrust.set repoId policy⟩
  else store

end NixStore
end RepoWatch
