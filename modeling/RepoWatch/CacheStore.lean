import RepoWatch.Database
/-!
# CacheStore — warm records and the replacement queue

The writers that share a key's rows with `record_snapshot`: `recordWarmedPackage` upserts the warm record,
`finishReplacement` deletes a queued replacement or notes its error, both only under the revision it was read with.
-/
namespace RepoWatch

open Lib

/-- An item of `get_pending_replacements`. -/
structure PendingItem where
  packageKey : Str
  targets : List (Str × Str)
  revision : Str
  filename : Option Str
  lastError : Option Str
  contentHash : Option Str
  deriving DecidableEq

namespace Database

/-- The row that `record_warmed_package` upserts: the first source of a key is kept. -/
def warmedRow (db : Database) (repoId packageKey filename : Str) (ok : Bool) (httpStatus : Option Int)
    (source : Str) (now revision : Str) : WarmedRow :=
  let first := (db.warmedPackages.get (repoId, packageKey)).map WarmedRow.source
  ⟨repoId, packageKey, filename, now, ok, httpStatus, first.getD (some source), revision⟩

/-- `CacheStore.record_warmed_package`; `revision` is the random blob it draws. -/
def recordWarmedPackage (db : Database) (repoId packageKey filename : Str) (ok : Bool) (httpStatus : Option Int)
    (source : Str) (now revision : Str) : Database :=
  { db with warmedPackages :=
      db.warmedPackages.upsert (db.warmedRow repoId packageKey filename ok httpStatus source now revision) }

/-- `CacheStore.get_pending_replacements`. -/
def getPendingReplacements (db : Database) (repoId : Str) : List PendingItem :=
  (db.pendingReplacements.rows.filter fun q => q.repoId = repoId).map fun q =>
    let p := db.repoPackages.get (q.repoId, q.packageKey)
    ⟨q.packageKey, q.targets, q.revision, p.map PackageRow.filename, q.lastError,
      (p.bind PackageRow.contentHash).or q.expectedHash⟩

/-- `CacheStore.finish_replacement`. -/
def finishReplacement (db : Database) (repoId key revision : Str) (error : Option Str) : Database :=
  match db.pendingReplacements.get (repoId, key) with
  | none => db
  | some row =>
    if row.revision ≠ revision then db
    else match error with
      | none => { db with pendingReplacements := db.pendingReplacements.delete (repoId, key) }
      | some e => { db with pendingReplacements := db.pendingReplacements.upsert { row with lastError := some e } }

section
variable {db : Database}

@[simp] theorem recordWarmedPackage_repoPackages {repoId key filename : Str} {ok : Bool} {status : Option Int}
    {source now revision : Str} :
    (db.recordWarmedPackage repoId key filename ok status source now revision).repoPackages = db.repoPackages := rfl

@[simp] theorem recordWarmedPackage_pendingReplacements {repoId key filename : Str} {ok : Bool} {status : Option Int}
    {source now revision : Str} :
    (db.recordWarmedPackage repoId key filename ok status source now revision).pendingReplacements =
      db.pendingReplacements := rfl

@[simp] theorem get_recordWarmedPackage {repoId key filename : Str} {ok : Bool} {status : Option Int}
    {source now revision : Str} (pk : Str × Str) :
    (db.recordWarmedPackage repoId key filename ok status source now revision).warmedPackages.get pk =
      if pk = (repoId, key) then some (db.warmedRow repoId key filename ok status source now revision)
      else db.warmedPackages.get pk :=
  Table.get_upsert ..

@[simp] theorem finishReplacement_repoPackages {repoId key revision : Str} {error : Option Str} :
    (db.finishReplacement repoId key revision error).repoPackages = db.repoPackages := by
  unfold finishReplacement
  repeat' split
  all_goals rfl

@[simp] theorem finishReplacement_warmedPackages {repoId key revision : Str} {error : Option Str} :
    (db.finishReplacement repoId key revision error).warmedPackages = db.warmedPackages := by
  unfold finishReplacement
  repeat' split
  all_goals rfl

/-- **Finishing touches one row**: under its own revision it is deleted, or keeps everything but the error. -/
theorem get_finishReplacement {repoId key revision : Str} {error : Option Str} (pk : Str × Str) :
    (db.finishReplacement repoId key revision error).pendingReplacements.get pk =
      if pk = (repoId, key) then (db.pendingReplacements.get pk).bind fun row =>
        if row.revision ≠ revision then some row else error.map fun e => { row with lastError := some e }
      else db.pendingReplacements.get pk := by
  unfold finishReplacement
  by_cases hpk : pk = (repoId, key)
  · subst hpk
    rw [if_pos rfl]
    cases hrow : db.pendingReplacements.get (repoId, key) with
    | none => exact hrow
    | some row =>
      dsimp only
      rw [Option.bind_some]
      by_cases hrev : row.revision ≠ revision
      · rw [if_pos hrev, if_pos hrev, hrow]
      · rw [if_neg hrev, if_neg hrev]
        cases error with
        | none => simp
        | some e =>
          have hkey : row.pk = (repoId, key) := Table.key_of_get hrow
          dsimp only
          rw [Table.get_upsert, if_pos (by rw [← hkey]; rfl)]
          rfl
  · rw [if_neg hpk]
    cases hrow : db.pendingReplacements.get (repoId, key) with
    | none => rfl
    | some row =>
      dsimp only
      by_cases hrev : row.revision ≠ revision
      · rw [if_pos hrev]
      · rw [if_neg hrev]
        cases error with
        | none => rw [Table.get_delete, if_neg hpk]
        | some e =>
          have hkey : row.pk = (repoId, key) := Table.key_of_get hrow
          dsimp only
          have hpk' : ¬ pk = PendingRow.pk { row with lastError := some e } := fun hk => hpk (hk.trans hkey)
          rw [Table.get_upsert, if_neg hpk']

theorem mem_getPendingReplacements {repoId : Str} {item : PendingItem} :
    item ∈ db.getPendingReplacements repoId ↔ ∃ row, db.pendingReplacements.get (repoId, item.packageKey) = some row ∧
      item.targets = row.targets ∧ item.revision = row.revision ∧
      item.filename = (db.repoPackages.get (repoId, item.packageKey)).map PackageRow.filename ∧
      item.lastError = row.lastError ∧ item.contentHash =
        ((db.repoPackages.get (repoId, item.packageKey)).bind PackageRow.contentHash).or row.expectedHash := by
  unfold getPendingReplacements
  simp only [List.mem_map, List.mem_filter, decide_eq_true_eq]
  constructor
  · rintro ⟨q, ⟨hq, rfl⟩, rfl⟩
    exact ⟨q, Table.get_of_mem hq, rfl, rfl, rfl, rfl, rfl⟩
  · rintro ⟨q, hq, h1, h2, h3, h4, h5⟩
    have hpk : q.pk = (repoId, item.packageKey) := Table.key_of_get hq
    obtain ⟨rfl, hk⟩ := Prod.mk.inj hpk
    refine ⟨q, ⟨Table.mem_of_get hq, rfl⟩, ?_⟩
    cases item
    simp_all

end
end Database
end RepoWatch
