import Mathlib.Data.Prod.Lex
import RepoWatch.Lib.Table
import RepoWatch.Text
/-!
# Database — the tables the catalog lives in

One table per SQL table, under the SQL primary key.  Only the columns that some modelled operation reads or writes are
here.  A scan visits the rows in table order, which no result depends on.
-/
namespace RepoWatch

open Lib

/-- A row of `repo_state`. -/
structure RepoState where
  repoId : Str
  lastCheck : Str
  changedAt : Option Str := none
  indexEtag : Option Str := none
  indexLastModified : Option Str := none
  packageCount : Option Nat := none
  keyExpiresAt : Option Str := none
  keyExpiryKnown : Bool := false
  snapshotRevision : Nat := 0
  sourceIdentity : Option Str := none
  deriving DecidableEq

/-- A row of `repo_packages`. -/
structure PackageRow where
  repoId : Str
  packageKey : Str
  packageName : Option Str
  filename : Str
  contentHash : Option Str
  deriving DecidableEq

/-- A row of `repo_events`. -/
structure EventRow where
  repoId : Str
  ts : Str
  newPkgs : List Str
  removedPkgs : List Str
  modifiedPkgs : List Str
  deriving DecidableEq

/-- A row of `pending_replacements`. -/
structure PendingRow where
  repoId : Str
  packageKey : Str
  targets : List (Str × Str)
  expectedHash : Option Str
  revision : Str
  lastError : Option Str
  deriving DecidableEq

/-- A row of `warmed_packages`; `ok` is the status `ok`, otherwise `failed`. -/
structure WarmedRow where
  repoId : Str
  packageKey : Str
  filename : Str
  warmedAt : Str
  ok : Bool
  httpStatus : Option Int
  source : Option Str
  revision : Str
  deriving DecidableEq

/-- A row of `nix_artifacts`. -/
structure NixArtifactRow where
  repoId : Str
  packageKey : Str
  filename : Str
  contentHash : Option Str
  size : Option Nat := none
  deriving DecidableEq

def PackageRow.pk (r : PackageRow) : Str × Str := (r.repoId, r.packageKey)
def PendingRow.pk (r : PendingRow) : Str × Str := (r.repoId, r.packageKey)
def WarmedRow.pk (r : WarmedRow) : Str × Str := (r.repoId, r.packageKey)
def NixArtifactRow.pk (r : NixArtifactRow) : Str × Str × Str := (r.repoId, r.packageKey, r.filename)

structure Database where
  repoState : Table RepoState Str RepoState.repoId
  repoPackages : Table PackageRow (Str × Str) PackageRow.pk
  repoEvents : List EventRow
  pendingReplacements : Table PendingRow (Str × Str) PendingRow.pk
  warmedPackages : Table WarmedRow (Str × Str) WarmedRow.pk
  nixArtifacts : Table NixArtifactRow (Str × Str × Str) NixArtifactRow.pk

namespace Database

def empty : Database := ⟨.empty, .empty, [], .empty, .empty, .empty⟩

/-- `SELECT … FROM repo_packages WHERE repo_id = ?`. -/
def packagesOf (db : Database) (repoId : Str) : List PackageRow :=
  db.repoPackages.rows.filter (fun r => r.repoId = repoId)

theorem mem_packagesOf {db : Database} {repoId : Str} {r : PackageRow} :
    r ∈ db.packagesOf repoId ↔ r ∈ db.repoPackages.rows ∧ r.repoId = repoId := by
  simp [packagesOf]

end Database

/-! ## Orders -/

/-- The order of a column pair: first column first. -/
def pairLe (a b : Str × Str) : Prop := a.1 < b.1 ∨ (a.1 = b.1 ∧ a.2 ≤ b.2)

instance : DecidableRel pairLe := fun a b => inferInstanceAs (Decidable (a.1 < b.1 ∨ (a.1 = b.1 ∧ a.2 ≤ b.2)))

theorem pairLe_iff {a b : Str × Str} : pairLe a b ↔ toLex a ≤ toLex b := (Prod.Lex.toLex_le_toLex).symm

instance : Std.Total pairLe := ⟨fun a b => by rw [pairLe_iff, pairLe_iff]; exact le_total _ _⟩
instance : IsTrans (Str × Str) pairLe := ⟨fun a b c => by simp only [pairLe_iff]; exact le_trans⟩

theorem pairLe_antisymm {a b : Str × Str} (h : pairLe a b) (h' : pairLe b a) : a = b :=
  toLex.injective (le_antisymm (pairLe_iff.1 h) (pairLe_iff.1 h'))

end RepoWatch
