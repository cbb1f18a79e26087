import Mathlib.Data.List.Dedup
import RepoWatch.Database
/-!
# Repositories — snapshots, check state and the deletion of a repository

`recordSnapshot` compares a parsed index with the catalog and stores it in one transaction.  Its effect is said per table
and per key (`get_repoPackages_recordSnapshot`, `get_pendingReplacements_recordSnapshot`,
`get_warmedPackages_recordSnapshot`, `get_repoState_recordSnapshot`); later modules use these and never unfold it.
-/
namespace RepoWatch

open Lib

/-- One parsed index: file name, package name and hash by package key. -/
structure RepoSnapshot where
  repoId : Str
  packages : Dict Str Str
  names : Dict Str Str
  contentHashes : Dict Str Str

structure DiffResult where
  repoId : Str
  changed : Bool
  newPackages : List Str
  removedPackages : List Str
  removedFilenames : List (Str × Str)
  modifiedPackages : List Str
  modifiedFilenames : List (Str × Str)
  deriving DecidableEq

/-- The response headers and identity that a check passes along with its snapshot, and the clock. -/
structure CheckMeta where
  now : Str
  indexEtag : Option Str := none
  indexLastModified : Option Str := none
  sourceIdentity : Option Str := none

/-- A string column that is neither null nor empty. -/
def known (s : Option Str) : Bool := s.any (· ≠ [])

@[simp] theorem known_none : known none = false := rfl

@[simp] theorem known_some {h : Str} : known (some h) = true ↔ h ≠ [] := by simp [known]

theorem known_iff {s : Option Str} : known s = true ↔ ∃ h, s = some h ∧ h ≠ [] := by
  cases s <;> simp

/-- The path changed, or two known hashes differ. -/
def isModified (old : PackageRow) (filename : Str) (hash : Option Str) : Bool :=
  decide (filename ≠ old.filename) || (known old.contentHash && known hash && decide (old.contentHash ≠ hash))

namespace RepoSnapshot

def row (s : RepoSnapshot) (key filename : Str) : PackageRow :=
  ⟨s.repoId, key, s.names.lookup key, filename, s.contentHashes.lookup key⟩

/-- The snapshot that lists the given keys with their paths and hashes. -/
def listing (repoId : String) (entries : List (String × String × Option String)) : RepoSnapshot where
  repoId := repoId.toList
  packages := .ofPairs (entries.map fun e => (e.1.toList, e.2.1.toList))
  names := .empty
  contentHashes := .ofPairs (entries.filterMap fun e => e.2.2.map fun h => (e.1.toList, h.toList))

def rows (s : RepoSnapshot) : List PackageRow := s.packages.rows.map fun p => s.row p.1 p.2

/-! ## The difference from the catalog -/

section
variable (s : RepoSnapshot) (db : Database)

def previous (key : Str) : Option PackageRow := db.repoPackages.get (s.repoId, key)

def newKeys : List Str := s.packages.keys.filter fun key => (s.previous db key).isNone

def removedRows : List PackageRow := (db.packagesOf s.repoId).filter fun r => r.packageKey ∉ s.packages.keys

def removedKeys : List Str := (s.removedRows db).map PackageRow.packageKey

def modifiedKeys : List Str :=
  (s.packages.rows.filter fun p =>
    (s.previous db p.1).any fun old => isModified old p.2 (s.contentHashes.lookup p.1)).map Prod.fst

def changed : Bool := !(s.newKeys db).isEmpty || !(s.removedKeys db).isEmpty || !(s.modifiedKeys db).isEmpty

def catalogChanged : Bool :=
  s.changed db || s.packages.keys.any fun key =>
    (s.previous db key).any fun old => decide (old.contentHash ≠ s.contentHashes.lookup key)

def diff : DiffResult where
  repoId := s.repoId
  changed := s.changed db
  newPackages := sortedStr (s.newKeys db)
  removedPackages := sortedStr (s.removedKeys db)
  removedFilenames := (s.removedRows db).map fun r => (r.packageKey, r.filename)
  modifiedPackages := sortedStr (s.modifiedKeys db)
  modifiedFilenames := (s.modifiedKeys db).filterMap fun key => (s.previous db key).map fun old => (key, old.filename)

end
end RepoSnapshot

namespace Database

/-- `SELECT MIN(repo_id) FROM repo_packages WHERE filename=? AND content_hash=?`. -/
def sharedOwner (db : Database) (filename : Str) (hash : Option Str) : Option Str :=
  (sortedStr ((db.repoPackages.rows.filter fun r => r.filename = filename ∧ r.contentHash = hash).map
    PackageRow.repoId)).head?

/-- The targets of a replacement: those still queued, both paths of the package, and the shared path of the old bytes. -/
def replacementTargets (db : Database) (s : RepoSnapshot) (key : Str) (old : PackageRow) (filename : Str) :
    List (Str × Str) :=
  let queued := ((db.pendingReplacements.get (s.repoId, key)).map PendingRow.targets).getD []
  let shared := if known old.contentHash then db.sharedOwner old.filename old.contentHash else none
  (queued ++ [(s.repoId, old.filename), (s.repoId, filename)] ++
    if known shared then [(shared.getD [], old.filename)] else []).dedup.insertionSort pairLe

/-- Queue the replacement of one modified key, and forget that the old bytes were warmed. -/
def queueReplacement (s : RepoSnapshot) (uuid : Str → Str) (db : Database) (key : Str) : Database :=
  match s.previous db key, s.packages.lookup key with
  | some old, some filename =>
    { db with
      pendingReplacements := db.pendingReplacements.upsert
        ⟨s.repoId, key, db.replacementTargets s key old filename, s.contentHashes.lookup key, uuid key, none⟩
      warmedPackages := db.warmedPackages.delete (s.repoId, key) }
  | _, _ => db

/-- The upsert of `repo_state`: revision 1 for a new row, one more when the catalog changed for an existing one. -/
def snapshotState (db : Database) (s : RepoSnapshot) (m : CheckMeta) (changed catalogChanged : Bool) : RepoState :=
  match db.repoState.get s.repoId with
  | none =>
    { repoId := s.repoId, lastCheck := m.now, changedAt := if changed then some m.now else none
      indexEtag := m.indexEtag, indexLastModified := m.indexLastModified
      packageCount := some s.packages.rows.length, sourceIdentity := m.sourceIdentity, snapshotRevision := 1 }
  | some state =>
    { state with
      lastCheck := m.now, changedAt := if changed then some m.now else state.changedAt
      indexEtag := m.indexEtag, indexLastModified := m.indexLastModified
      packageCount := some s.packages.rows.length, sourceIdentity := m.sourceIdentity
      snapshotRevision := state.snapshotRevision + catalogChanged.toNat }

/-- `INSERT … ON CONFLICT DO UPDATE … WHERE package_name IS NOT excluded.package_name OR …`. -/
def storePackage (packages : Table PackageRow (Str × Str) PackageRow.pk) (row : PackageRow) :
    Table PackageRow (Str × Str) PackageRow.pk :=
  match packages.get row.pk with
  | none => packages.upsert row
  | some old =>
    if old.packageName ≠ row.packageName ∨ old.filename ≠ row.filename ∨ old.contentHash ≠ row.contentHash then
      packages.upsert row
    else packages

/-- `RepositoriesStore.record_snapshot`; `uuid key` is the revision drawn for a modified key. -/
def recordSnapshot (db : Database) (s : RepoSnapshot) (m : CheckMeta) (uuid : Str → Str) : Database × DiffResult :=
  let diff := s.diff db
  let queued := diff.modifiedPackages.foldl (queueReplacement s uuid) db
  ({ queued with
     repoState := db.repoState.upsert (db.snapshotState s m diff.changed (s.catalogChanged db))
     repoPackages := s.rows.foldl storePackage
       (db.repoPackages.deleteAll ((s.removedKeys db).map fun key => (s.repoId, key)))
     repoEvents := if diff.changed then
         db.repoEvents ++ [⟨s.repoId, m.now, diff.newPackages, diff.removedPackages, diff.modifiedPackages⟩]
       else db.repoEvents }, diff)

/-- `RepositoriesStore.get_snapshot_revisions`. -/
def getSnapshotRevisions (db : Database) : Dict Str Nat :=
  .ofPairs (db.repoState.rows.map fun r => (r.repoId, r.snapshotRevision))

/-- `RepositoriesStore.record_key_expiry`. -/
def recordKeyExpiry (db : Database) (repoId : Str) (expiresAt : Option Str) (isKnown : Option Bool := none) : Database :=
  let isKnown := isKnown.getD expiresAt.isSome
  { db with repoState := db.repoState.upsert (match db.repoState.get repoId with
      | none => { repoId := repoId, lastCheck := [], keyExpiresAt := expiresAt, keyExpiryKnown := isKnown }
      | some state => { state with keyExpiresAt := expiresAt, keyExpiryKnown := isKnown }) }

/-- `RepositoriesStore.touch_last_check`. -/
def touchLastCheck (db : Database) (repoId now : Str) : Database :=
  match db.repoState.get repoId with
  | none => db
  | some state => { db with repoState := db.repoState.upsert { state with lastCheck := now } }

/-- The tables of `RepositoriesStore._REPO_TABLES` that are modelled, without the rows of one repository. -/
def deleteRepoRows (db : Database) (repoId : Str) : Database :=
  { db with
    repoState := db.repoState.filter fun r => r.repoId ≠ repoId
    repoPackages := db.repoPackages.filter fun r => r.repoId ≠ repoId
    repoEvents := db.repoEvents.filter fun r => r.repoId ≠ repoId
    pendingReplacements := db.pendingReplacements.filter fun r => r.repoId ≠ repoId }

/-- The tables of `CacheStore._REPO_TABLES` that are modelled, without the rows of one repository. -/
def deleteCacheRows (db : Database) (repoId : Str) : Database :=
  { db with
    warmedPackages := db.warmedPackages.filter fun r => r.repoId ≠ repoId
    nixArtifacts := db.nixArtifacts.filter fun r => r.repoId ≠ repoId }

/-- `cleanup.purge_orphaned_repos`: ids that are configured again are skipped. -/
def purgeOrphanedRepos (db : Database) (active : List Str) (repoIds : List Str) : Database :=
  repoIds.foldl (fun db repoId => if repoId ∈ active then db else (db.deleteRepoRows repoId).deleteCacheRows repoId) db

end Database

/-! ## What a snapshot compares -/

namespace RepoSnapshot
variable {s : RepoSnapshot} {db : Database}

@[simp] theorem row_pk (s : RepoSnapshot) (key filename : Str) : (s.row key filename).pk = (s.repoId, key) := rfl

theorem nodup_rows (s : RepoSnapshot) : (s.rows.map PackageRow.pk).Nodup := by
  have hpk : s.rows.map PackageRow.pk = s.packages.keys.map fun k => (s.repoId, k) := by
    simp [rows, Dict.keys, List.map_map, Function.comp_def]
  rw [hpk]
  exact s.packages.keysNodup.map fun a b h => (Prod.mk.inj h).2

theorem mem_newKeys {key : Str} : key ∈ s.newKeys db ↔ key ∈ s.packages.keys ∧ s.previous db key = none := by
  simp [newKeys]

theorem mem_removedKeys {key : Str} : key ∈ s.removedKeys db ↔ (∃ old, s.previous db key = some old) ∧
    key ∉ s.packages.keys := by
  unfold removedKeys removedRows previous
  simp only [List.mem_map, List.mem_filter, Database.mem_packagesOf, decide_eq_true_eq]
  constructor
  · rintro ⟨r, ⟨⟨hr, hid⟩, hk⟩, rfl⟩
    exact ⟨⟨r, by rw [← hid]; exact Table.get_of_mem hr⟩, hk⟩
  · rintro ⟨⟨r, hr⟩, hk⟩
    have hpk := Table.key_of_get hr
    simp only [PackageRow.pk, Prod.mk.injEq] at hpk
    exact ⟨r, ⟨⟨Table.mem_of_get hr, hpk.1⟩, by rw [hpk.2]; exact hk⟩, hpk.2⟩

theorem mem_modifiedKeys {key : Str} : key ∈ s.modifiedKeys db ↔ ∃ filename old, s.packages.lookup key = some filename ∧
    s.previous db key = some old ∧ isModified old filename (s.contentHashes.lookup key) = true := by
  unfold modifiedKeys
  simp only [List.mem_map, List.mem_filter, Option.any_eq_true]
  constructor
  · rintro ⟨⟨k, filename⟩, ⟨hp, old, hold, hm⟩, rfl⟩
    exact ⟨filename, old, Dict.lookup_eq_some_iff.2 hp, hold, hm⟩
  · rintro ⟨filename, old, hp, hold, hm⟩
    exact ⟨(key, filename), ⟨Dict.lookup_eq_some_iff.1 hp, old, hold, hm⟩, rfl⟩

theorem nodup_modifiedKeys (s : RepoSnapshot) (db : Database) : (s.modifiedKeys db).Nodup :=
  (List.filter_sublist.map Prod.fst).nodup s.packages.keysNodup

theorem mem_keys_iff_lookup {key : Str} : key ∈ s.packages.keys ↔ ∃ filename, s.packages.lookup key = some filename := by
  rw [← not_iff_not, ← Dict.lookup_eq_none_iff, Option.eq_none_iff_forall_ne_some, not_exists]

/-- Nothing changed in the catalog: the same keys, with the same paths up to changes that count as no modification. -/
theorem changed_eq_false : s.changed db = false ↔ (∀ key, s.packages.lookup key = none ↔ s.previous db key = none) ∧
    s.modifiedKeys db = [] := by
  have hnew : (s.newKeys db).isEmpty = true ↔ ∀ key, s.previous db key = none → s.packages.lookup key = none := by
    rw [List.isEmpty_iff, List.eq_nil_iff_forall_not_mem]
    refine forall_congr' fun key => ?_
    rw [mem_newKeys, Dict.lookup_eq_none_iff]
    tauto
  have hremoved : (s.removedKeys db).isEmpty = true ↔ ∀ key, s.packages.lookup key = none → s.previous db key = none := by
    rw [List.isEmpty_iff, List.eq_nil_iff_forall_not_mem]
    refine forall_congr' fun key => ?_
    rw [mem_removedKeys, Dict.lookup_eq_none_iff, ← Option.isSome_iff_exists, ← Option.not_isSome_iff_eq_none]
    tauto
  unfold changed
  rw [Bool.or_eq_false_iff, Bool.or_eq_false_iff, Bool.not_eq_false', Bool.not_eq_false', Bool.not_eq_false', hnew,
    hremoved, List.isEmpty_iff]
  exact ⟨fun ⟨⟨h1, h2⟩, h3⟩ => ⟨fun key => ⟨h2 key, h1 key⟩, h3⟩, fun ⟨h, h3⟩ =>
    ⟨⟨fun key => (h key).2, fun key => (h key).1⟩, h3⟩⟩

end RepoSnapshot

/-! ## What a snapshot stores -/

namespace Database
variable {db : Database} {s : RepoSnapshot} {m : CheckMeta} {uuid : Str → Str}

/-- **The `WHERE` of the upsert loses nothing**: a row that it skips is the row that is there. -/
theorem storePackage_eq_upsert (packages : Table PackageRow (Str × Str) PackageRow.pk) (row : PackageRow) :
    storePackage packages row = packages.upsert row := by
  unfold storePackage
  split
  · rfl
  · rename_i old hold
    split
    · rfl
    · rename_i hsame
      simp only [ne_eq, not_or, not_not] at hsame
      have hpk := Table.key_of_get hold
      simp only [PackageRow.pk, Prod.mk.injEq] at hpk
      have heq : old = row := by
        cases old
        cases row
        simp_all
      subst heq
      exact (Table.upsert_of_get hold).symm

theorem foldl_storePackage : storePackage = fun packages row => packages.upsert row := by
  funext packages row
  exact storePackage_eq_upsert packages row

theorem mem_replacementTargets {key filename : Str} {old : PackageRow} {target : Str × Str} :
    target ∈ db.replacementTargets s key old filename ↔
      target ∈ ((db.pendingReplacements.get (s.repoId, key)).map PendingRow.targets).getD [] ∨
      target = (s.repoId, old.filename) ∨ target = (s.repoId, filename) ∨
      (known old.contentHash = true ∧ ∃ owner, db.sharedOwner old.filename old.contentHash = some owner ∧ owner ≠ [] ∧
        target = (owner, old.filename)) := by
  unfold replacementTargets
  simp only [List.mem_insertionSort, List.mem_dedup, List.mem_append, List.mem_cons, List.not_mem_nil, or_false, or_assoc]
  refine or_congr_right (or_congr_right (or_congr_right ?_))
  by_cases hk : known old.contentHash = true
  · simp only [hk, if_true, true_and]
    cases ho : db.sharedOwner old.filename old.contentHash with
    | none => simp
    | some owner => by_cases he : owner = [] <;> simp [he]
  · simp [hk]

@[simp] theorem queueReplacement_repoPackages (key : Str) :
    (queueReplacement s uuid db key).repoPackages = db.repoPackages := by
  unfold queueReplacement; split <;> rfl

theorem foldl_queueReplacement_repoPackages : ∀ (keys : List Str) (db : Database),
    (keys.foldl (queueReplacement s uuid) db).repoPackages = db.repoPackages
  | [], _ => rfl
  | key :: keys, db => by
    rw [List.foldl_cons, foldl_queueReplacement_repoPackages keys, queueReplacement_repoPackages]

/-- The row that `queueReplacement` writes for a modified key. -/
def pendingRow (db : Database) (s : RepoSnapshot) (uuid : Str → Str) (key : Str) (old : PackageRow) (filename : Str) :
    PendingRow :=
  ⟨s.repoId, key, db.replacementTargets s key old filename, s.contentHashes.lookup key, uuid key, none⟩

/-- The loop over the modified keys writes one row for each and deletes its warm record. -/
theorem foldl_queueReplacement_get (keys : List Str) (hnd : keys.Nodup) (hkeys : ∀ key ∈ keys, ∃ old filename,
    s.previous db key = some old ∧ s.packages.lookup key = some filename) (r k : Str) :
    (keys.foldl (queueReplacement s uuid) db).pendingReplacements.get (r, k) =
      (if r = s.repoId ∧ k ∈ keys then (s.previous db k).bind fun old => (s.packages.lookup k).map fun filename =>
        db.pendingRow s uuid k old filename else db.pendingReplacements.get (r, k)) ∧
    (keys.foldl (queueReplacement s uuid) db).warmedPackages.get (r, k) =
      if r = s.repoId ∧ k ∈ keys then none else db.warmedPackages.get (r, k) := by
  induction keys generalizing db with
  | nil => simp
  | cons key keys ih =>
    rw [List.nodup_cons] at hnd
    obtain ⟨old, filename, hold, hfile⟩ := hkeys key List.mem_cons_self
    have hq : queueReplacement s uuid db key =
        { db with
          pendingReplacements := db.pendingReplacements.upsert (db.pendingRow s uuid key old filename)
          warmedPackages := db.warmedPackages.delete (s.repoId, key) } := by
      unfold queueReplacement
      rw [hold, hfile]
      rfl
    have hprev : ∀ k, s.previous (queueReplacement s uuid db key) k = s.previous db k := fun k => by
      unfold RepoSnapshot.previous
      rw [queueReplacement_repoPackages]
    obtain ⟨ih₁, ih₂⟩ := @ih (queueReplacement s uuid db key) hnd.2 (fun k hk => by
      rw [hprev]; exact hkeys k (List.mem_cons_of_mem _ hk))
    rw [List.foldl_cons, ih₁, ih₂]
    by_cases hk : r = s.repoId ∧ k ∈ keys
    · have hne : k ≠ key := fun e => hnd.1 (e ▸ hk.2)
      have hpk : ∀ k' old filename, (pendingRow db s uuid k' old filename).pk = (s.repoId, k') := fun _ _ _ => rfl
      rw [if_pos hk, if_pos hk, if_pos ⟨hk.1, List.mem_cons_of_mem _ hk.2⟩, if_pos ⟨hk.1, List.mem_cons_of_mem _ hk.2⟩,
        hprev]
      refine ⟨?_, rfl⟩
      congr 1
      funext old'
      congr 1
      funext filename'
      unfold pendingRow replacementTargets sharedOwner
      rw [queueReplacement_repoPackages, hq]
      dsimp only
      rw [Table.get_upsert, if_neg (by rw [hpk]; simp [hne])]
    · rw [if_neg hk, if_neg hk, hq]
      dsimp only
      rw [Table.get_upsert, Table.get_delete]
      have hpk : (pendingRow db s uuid key old filename).pk = (s.repoId, key) := rfl
      rw [hpk]
      by_cases hk' : (r, k) = (s.repoId, key)
      · obtain ⟨rfl, rfl⟩ := Prod.mk.inj hk'
        simp [hold, hfile]
      · rw [if_neg hk', if_neg hk']
        have hno : ¬ (r = s.repoId ∧ k ∈ key :: keys) := by
          rintro ⟨h1, h2⟩
          rcases List.mem_cons.1 h2 with rfl | h2
          · exact hk' (by rw [h1])
          · exact hk ⟨h1, h2⟩
        rw [if_neg hno, if_neg hno]
        exact ⟨rfl, rfl⟩

section Recorded
variable (db s m uuid)

theorem recordSnapshot_diff : (db.recordSnapshot s m uuid).2 = s.diff db := rfl

/-- **The catalog after a snapshot**: of its repository exactly what it lists, of the others what was there. -/
theorem get_repoPackages_recordSnapshot (r k : Str) : (db.recordSnapshot s m uuid).1.repoPackages.get (r, k) =
    if r = s.repoId then (s.packages.lookup k).map (s.row k) else db.repoPackages.get (r, k) := by
  have hrow : ∀ p ∈ s.rows, p.pk = (s.repoId, p.packageKey) := fun p hp => by
    obtain ⟨q, -, rfl⟩ := List.mem_map.1 hp
    rfl
  unfold recordSnapshot
  rw [foldl_storePackage]
  dsimp only
  change Table.get (Table.upsertAll _ s.rows) (r, k) = _
  by_cases hr : r = s.repoId
  · subst hr
    rw [if_pos rfl]
    cases hl : s.packages.lookup k with
    | some filename =>
      have hm : s.row k filename ∈ s.rows := List.mem_map.2 ⟨(k, filename), Dict.lookup_eq_some_iff.1 hl, rfl⟩
      exact Table.get_upsertAll_of_nodup s.nodup_rows hm _
    | none =>
      have hk := Dict.lookup_eq_none_iff.1 hl
      rw [Table.get_upsertAll_of_not_mem, Table.get_deleteAll]
      · rw [Option.map_none]
        cases hp : s.previous db k with
        | none =>
          split
          · rfl
          · exact hp
        | some old =>
          rw [if_pos]
          exact List.mem_map.2 ⟨k, RepoSnapshot.mem_removedKeys.2 ⟨⟨old, hp⟩, hk⟩, rfl⟩
      · intro p hp hpk
        obtain ⟨q, hq, rfl⟩ := List.mem_map.1 hp
        rw [RepoSnapshot.row_pk, Prod.mk.injEq] at hpk
        exact hk (List.mem_map.2 ⟨q, hq, hpk.2⟩)
  · rw [if_neg hr, Table.get_upsertAll_of_not_mem, Table.get_deleteAll, if_neg]
    · intro hm
      obtain ⟨_, -, h⟩ := List.mem_map.1 hm
      exact hr (Prod.mk.inj h).1.symm
    · intro p hp hpk
      rw [hrow p hp, Prod.mk.injEq] at hpk
      exact hr hpk.1.symm

theorem previous_recordSnapshot (k : Str) :
    (db.recordSnapshot s m uuid).1.repoPackages.get (s.repoId, k) = (s.packages.lookup k).map (s.row k) := by
  rw [get_repoPackages_recordSnapshot, if_pos rfl]

theorem get_queued (r k : Str) :
    ((s.diff db).modifiedPackages.foldl (queueReplacement s uuid) db).pendingReplacements.get (r, k) =
      (if r = s.repoId ∧ k ∈ s.modifiedKeys db then (s.previous db k).bind fun old => (s.packages.lookup k).map fun
        filename => db.pendingRow s uuid k old filename else db.pendingReplacements.get (r, k)) ∧
    ((s.diff db).modifiedPackages.foldl (queueReplacement s uuid) db).warmedPackages.get (r, k) =
      if r = s.repoId ∧ k ∈ s.modifiedKeys db then none else db.warmedPackages.get (r, k) := by
  have hmem : ∀ k, k ∈ (s.diff db).modifiedPackages ↔ k ∈ s.modifiedKeys db := fun k => mem_sortedStr
  have hnd : (s.diff db).modifiedPackages.Nodup :=
    (List.perm_insertionSort (· ≤ ·) (s.modifiedKeys db)).nodup_iff.2 (s.nodup_modifiedKeys db)
  have := @foldl_queueReplacement_get db s uuid _ hnd (fun key hk => by
    obtain ⟨filename, old, hf, ho, -⟩ := RepoSnapshot.mem_modifiedKeys.1 ((hmem key).1 hk)
    exact ⟨old, filename, ho, hf⟩) r k
  simpa only [hmem] using this

/-- **The replacement queue after a snapshot**: a fresh row for each modified key, the old row elsewhere. -/
theorem get_pendingReplacements_recordSnapshot (r k : Str) :
    (db.recordSnapshot s m uuid).1.pendingReplacements.get (r, k) =
      if r = s.repoId ∧ k ∈ s.modifiedKeys db then (s.previous db k).bind fun old => (s.packages.lookup k).map fun
        filename => db.pendingRow s uuid k old filename else db.pendingReplacements.get (r, k) :=
  (get_queued db s uuid r k).1

/-- **The warm records after a snapshot**: those of modified keys are gone. -/
theorem get_warmedPackages_recordSnapshot (r k : Str) :
    (db.recordSnapshot s m uuid).1.warmedPackages.get (r, k) =
      if r = s.repoId ∧ k ∈ s.modifiedKeys db then none else db.warmedPackages.get (r, k) :=
  (get_queued db s uuid r k).2

theorem snapshotState_repoId (changed catalogChanged : Bool) :
    (db.snapshotState s m changed catalogChanged).repoId = s.repoId := by
  unfold snapshotState
  split
  · rfl
  · rename_i state h
    have hid : state.repoId = s.repoId := Table.key_of_get h
    exact hid

theorem get_repoState_recordSnapshot (r : Str) : (db.recordSnapshot s m uuid).1.repoState.get r =
    if r = s.repoId then some (db.snapshotState s m (s.changed db) (s.catalogChanged db)) else db.repoState.get r := by
  unfold recordSnapshot
  dsimp only
  rw [Table.get_upsert, snapshotState_repoId]
  rfl

end Recorded

/-! ## What a deletion leaves -/

theorem get_repoState_deleteRepoRows (db : Database) (repoId r : Str) :
    (db.deleteRepoRows repoId).repoState.get r = if r = repoId then none else db.repoState.get r := by
  refine (Table.get_filter_key db.repoState (fun x => decide (x ≠ repoId)) r).trans ?_
  by_cases h : r = repoId <;> simp [h]

theorem get_repoPackages_deleteRepoRows (db : Database) (repoId r k : Str) :
    (db.deleteRepoRows repoId).repoPackages.get (r, k) = if r = repoId then none else db.repoPackages.get (r, k) := by
  refine (Table.get_filter_key db.repoPackages (fun x => decide (x.1 ≠ repoId)) (r, k)).trans ?_
  by_cases h : r = repoId <;> simp [h]

/-- **Purging orphans** deletes the rows of the given repositories that are not active. -/
theorem get_purgeOrphanedRepos (active : List Str) (r k : Str) : ∀ (repoIds : List Str) (db : Database),
    (db.purgeOrphanedRepos active repoIds).repoState.get r =
      (if r ∈ repoIds ∧ r ∉ active then none else db.repoState.get r) ∧
    (db.purgeOrphanedRepos active repoIds).repoPackages.get (r, k) =
      if r ∈ repoIds ∧ r ∉ active then none else db.repoPackages.get (r, k)
  | [], db => by simp [purgeOrphanedRepos]
  | repoId :: repoIds, db => by
    obtain ⟨h₁, h₂⟩ := get_purgeOrphanedRepos active r k repoIds
      (if repoId ∈ active then db else (db.deleteRepoRows repoId).deleteCacheRows repoId)
    unfold purgeOrphanedRepos at h₁ h₂ ⊢
    rw [List.foldl_cons, h₁, h₂]
    by_cases ha : repoId ∈ active
    · have hno : r = repoId → r ∈ active := fun e => e ▸ ha
      rw [if_pos ha]
      constructor <;> congr 1 <;> simp <;> tauto
    · rw [if_neg ha]
      have hs : ((db.deleteRepoRows repoId).deleteCacheRows repoId).repoState.get r = _ :=
        get_repoState_deleteRepoRows db repoId r
      have hp : ((db.deleteRepoRows repoId).deleteCacheRows repoId).repoPackages.get (r, k) = _ :=
        get_repoPackages_deleteRepoRows db repoId r k
      rw [hs, hp]
      by_cases hr : r = repoId
      · subst hr; simp [ha]
      · simp [hr]

end Database
end RepoWatch
