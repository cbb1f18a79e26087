import Mathlib.Data.Finset.SDiff
import RepoWatch.Lib.Loop
import RepoWatch.Repositories
/-!
# EventLog — the history of snapshots and the catalog it adds up to

Each call of `record_snapshot` compares with the catalog that the calls before it left, so what one call stores is said
against that catalog (`recorded`).  The events are the only trace of the catalogs in between: replayed in order they give
the keys of the present one, an invariant that one call preserves (`replayed_recordSnapshot`) and every run keeps.
-/
namespace RepoWatch

open Lib

/-- A call of `record_snapshot`: its arguments, the clock, and the revisions it draws. -/
structure SnapshotCall where
  snapshot : RepoSnapshot
  info : CheckMeta
  uuid : Str → Str

/-- The keys after an event: without the removed ones, with the new ones. -/
def EventRow.replay (keys : Finset Str) (e : EventRow) : Finset Str :=
  (keys \ e.removedPkgs.toFinset) ∪ e.newPkgs.toFinset

namespace Database

def record (db : Database) (c : SnapshotCall) : Database × DiffResult := db.recordSnapshot c.snapshot c.info c.uuid

/-- The database after the calls, from the empty one. -/
def recordAll (calls : List SnapshotCall) : Database := calls.foldl (fun db c => (db.record c).1) empty

/-- The events of a repository, in the order of their ids. -/
def eventsOf (db : Database) (r : Str) : List EventRow := db.repoEvents.filter fun e => e.repoId = r

def replayed (db : Database) (r : Str) : Finset Str := (db.eventsOf r).foldl EventRow.replay ∅

def listedKeys (db : Database) (r : Str) : Finset Str := ((db.packagesOf r).map PackageRow.packageKey).toFinset

def changedAt (db : Database) (r : Str) : Option Str := (db.repoState.get r).bind RepoState.changedAt

variable {db : Database} {c : SnapshotCall}

theorem mem_listedKeys {r key : Str} : key ∈ db.listedKeys r ↔ ∃ row, db.repoPackages.get (r, key) = some row := by
  unfold listedKeys
  rw [List.mem_toFinset, List.mem_map]
  constructor
  · rintro ⟨row, hrow, rfl⟩
    obtain ⟨hm, rfl⟩ := mem_packagesOf.1 hrow
    exact ⟨row, Table.get_of_mem hm⟩
  · rintro ⟨row, hrow⟩
    obtain ⟨hm, hpk⟩ := Table.get_eq_some_iff.1 hrow
    simp only [PackageRow.pk, Prod.mk.injEq] at hpk
    exact ⟨row, mem_packagesOf.2 ⟨hm, hpk.1⟩, hpk.2⟩

theorem nodup_packagesOf (db : Database) (r : Str) : (db.packagesOf r).Nodup :=
  (List.Nodup.of_map _ db.repoPackages.keysNodup).filter _

/-! ## The catalog after a call -/

/-- **The rows of the repository** are those of the snapshot, each once. -/
theorem packagesOf_record (db : Database) (c : SnapshotCall) :
    ((db.record c).1.packagesOf c.snapshot.repoId).Perm c.snapshot.rows := by
  refine (List.perm_ext_iff_of_nodup (nodup_packagesOf _ _) (List.Nodup.of_map _ (RepoSnapshot.nodup_rows _))).2 fun row => ?_
  rw [mem_packagesOf, Table.mem_rows_iff]
  constructor
  · rintro ⟨hget, hid⟩
    rw [PackageRow.pk, hid, record, previous_recordSnapshot] at hget
    obtain ⟨filename, hfile, hrow⟩ := Option.map_eq_some_iff.1 hget
    exact List.mem_map.2 ⟨(row.packageKey, filename), Dict.lookup_eq_some_iff.1 hfile, hrow⟩
  · intro hrow
    obtain ⟨p, hp, rfl⟩ := List.mem_map.1 hrow
    have hfile : c.snapshot.packages.lookup p.1 = some p.2 := Dict.lookup_eq_some_iff.2 hp
    refine ⟨?_, rfl⟩
    rw [RepoSnapshot.row_pk, record, previous_recordSnapshot, hfile, Option.map_some]

theorem mem_repoPackages_record_of_ne {row : PackageRow} (h : row.repoId ≠ c.snapshot.repoId) :
    row ∈ (db.record c).1.repoPackages.rows ↔ row ∈ db.repoPackages.rows := by
  rw [Table.mem_rows_iff, Table.mem_rows_iff, PackageRow.pk, record, get_repoPackages_recordSnapshot, if_neg h]

theorem packageCount_record (db : Database) (c : SnapshotCall) :
    ((db.record c).1.repoState.get c.snapshot.repoId).bind RepoState.packageCount =
      some ((db.record c).1.packagesOf c.snapshot.repoId).length := by
  rw [(packagesOf_record db c).length_eq, RepoSnapshot.rows, List.length_map, record, get_repoState_recordSnapshot,
    if_pos rfl, Option.bind_some]
  unfold snapshotState
  split <;> rfl

/-! ## The difference -/

theorem mem_newPackages {key : Str} : key ∈ (db.record c).2.newPackages ↔
    key ∈ c.snapshot.packages.keys ∧ key ∉ db.listedKeys c.snapshot.repoId := by
  rw [record, recordSnapshot_diff, RepoSnapshot.diff, mem_sortedStr, RepoSnapshot.mem_newKeys, mem_listedKeys,
    Option.eq_none_iff_forall_ne_some, not_exists]
  rfl

theorem mem_removedPackages {key : Str} : key ∈ (db.record c).2.removedPackages ↔
    key ∈ db.listedKeys c.snapshot.repoId ∧ key ∉ c.snapshot.packages.keys := by
  rw [record, recordSnapshot_diff, RepoSnapshot.diff, mem_sortedStr, RepoSnapshot.mem_removedKeys, mem_listedKeys]
  rfl

/-- The path of a key changed, or its hash did between two known values. -/
def ModifiedBy (old : PackageRow) (filename : Str) (hash : Option Str) : Prop :=
  filename ≠ old.filename ∨ ∃ h h', old.contentHash = some h ∧ hash = some h' ∧ h ≠ [] ∧ h' ≠ [] ∧ h ≠ h'

theorem isModified_iff {old : PackageRow} {filename : Str} {hash : Option Str} :
    isModified old filename hash = true ↔ ModifiedBy old filename hash := by
  unfold isModified ModifiedBy
  simp only [Bool.or_eq_true, Bool.and_eq_true, decide_eq_true_eq, known_iff]
  refine or_congr_right ⟨?_, ?_⟩
  · rintro ⟨⟨⟨h, ho, hne⟩, ⟨h', hn, hne'⟩⟩, hdiff⟩
    exact ⟨h, h', ho, hn, hne, hne', fun e => hdiff (by rw [ho, hn, e])⟩
  · rintro ⟨h, h', ho, hn, hne, hne', hdiff⟩
    exact ⟨⟨⟨h, ho, hne⟩, ⟨h', hn, hne'⟩⟩, fun e => hdiff (Option.some.inj (ho.symm.trans (e.trans hn)))⟩

theorem mem_modifiedPackages {key : Str} : key ∈ (db.record c).2.modifiedPackages ↔
    ∃ filename old, c.snapshot.packages.lookup key = some filename ∧
      db.repoPackages.get (c.snapshot.repoId, key) = some old ∧
      ModifiedBy old filename (c.snapshot.contentHashes.lookup key) := by
  rw [record, recordSnapshot_diff, RepoSnapshot.diff, mem_sortedStr, RepoSnapshot.mem_modifiedKeys]
  simp only [isModified_iff]
  rfl

theorem sortedStr_eq_nil {l : List Str} : sortedStr l = [] ↔ l = [] := by
  rw [← List.length_eq_zero_iff, ← List.length_eq_zero_iff, sortedStr, List.length_insertionSort]

/-- `changed` says that one of the three lists is not empty. -/
theorem changed_iff (db : Database) (c : SnapshotCall) : c.snapshot.changed db = false ↔
    (db.record c).2.newPackages = [] ∧ (db.record c).2.removedPackages = [] ∧ (db.record c).2.modifiedPackages = [] := by
  rw [record, recordSnapshot_diff, RepoSnapshot.diff, RepoSnapshot.changed]
  simp only [Bool.or_eq_false_iff, Bool.not_eq_false', List.isEmpty_iff, sortedStr_eq_nil, and_assoc]

/-! ## The event -/

/-- The event of a call. -/
def eventOf (db : Database) (c : SnapshotCall) : EventRow :=
  let diff := (db.record c).2
  ⟨c.snapshot.repoId, c.info.now, diff.newPackages, diff.removedPackages, diff.modifiedPackages⟩

theorem repoEvents_record (db : Database) (c : SnapshotCall) : (db.record c).1.repoEvents =
    if c.snapshot.changed db then db.repoEvents ++ [db.eventOf c] else db.repoEvents := rfl

theorem changedAt_record (db : Database) (c : SnapshotCall) : (db.record c).1.changedAt c.snapshot.repoId =
    if c.snapshot.changed db then some c.info.now else db.changedAt c.snapshot.repoId := by
  unfold changedAt
  rw [record, get_repoState_recordSnapshot, if_pos rfl, Option.bind_some]
  unfold snapshotState
  cases hstate : db.repoState.get c.snapshot.repoId <;> cases c.snapshot.changed db <;> rfl

theorem listedKeys_record (db : Database) (c : SnapshotCall) (r : Str) : (db.record c).1.listedKeys r =
    if r = c.snapshot.repoId then c.snapshot.packages.keys.toFinset else db.listedKeys r := by
  ext key
  rw [mem_listedKeys, record, get_repoPackages_recordSnapshot]
  by_cases hr : r = c.snapshot.repoId
  · rw [if_pos hr, if_pos hr, List.mem_toFinset, RepoSnapshot.mem_keys_iff_lookup]
    cases c.snapshot.packages.lookup key <;> simp
  · rw [if_neg hr, if_neg hr, mem_listedKeys]

/-- An event turns the keys before its call into those after it, and a call without one leaves them. -/
theorem replay_eventOf (db : Database) (c : SnapshotCall) :
    (db.eventOf c).replay (db.listedKeys c.snapshot.repoId) = c.snapshot.packages.keys.toFinset := by
  ext key
  unfold EventRow.replay eventOf
  simp only [Finset.mem_union, Finset.mem_sdiff, List.mem_toFinset, mem_newPackages, mem_removedPackages]
  tauto

theorem keys_of_unchanged (h : c.snapshot.changed db = false) :
    c.snapshot.packages.keys.toFinset = db.listedKeys c.snapshot.repoId := by
  obtain ⟨hnew, hremoved, -⟩ := (changed_iff db c).1 h
  rw [← replay_eventOf db c]
  unfold EventRow.replay eventOf
  simp [hnew, hremoved]

/-- **A call preserves the replay**: if the events of a repository added up to its keys, they still do. -/
theorem replayed_record (h : ∀ r, db.replayed r = db.listedKeys r) (c : SnapshotCall) (r : Str) :
    (db.record c).1.replayed r = (db.record c).1.listedKeys r := by
  rw [listedKeys_record]
  unfold replayed eventsOf
  rw [repoEvents_record]
  split
  · rw [List.filter_append, List.foldl_append]
    have hr : (db.repoEvents.filter fun e => e.repoId = r).foldl EventRow.replay ∅ = db.listedKeys r := h r
    rw [hr]
    by_cases hid : r = c.snapshot.repoId
    · subst hid
      have hown : ([db.eventOf c].filter fun e => e.repoId = c.snapshot.repoId) = [db.eventOf c] := by simp [eventOf]
      rw [hown, if_pos rfl, List.foldl_cons, List.foldl_nil, replay_eventOf]
    · have hforeign : ([db.eventOf c].filter fun e => e.repoId = r) = [] := by simp [eventOf, Ne.symm hid]
      rw [hforeign, if_neg hid, List.foldl_nil]
  · rename_i hchanged
    rw [Bool.not_eq_true] at hchanged
    have hr : (db.repoEvents.filter fun e => e.repoId = r).foldl EventRow.replay ∅ = db.listedKeys r := h r
    by_cases hid : r = c.snapshot.repoId
    · subst hid
      rw [hr, if_pos rfl, keys_of_unchanged hchanged]
    · rw [hr, if_neg hid]

theorem replayed_recordAll (calls : List SnapshotCall) (r : Str) :
    (recordAll calls).replayed r = (recordAll calls).listedKeys r := by
  refine foldl_inv (fun _ (db : Database) => ∀ r, db.replayed r = db.listedKeys r) ?_ ?_ calls r
  · intro r
    rfl
  · intro _ c db h
    exact replayed_record h c

/-! ## What a call stores -/

/-- **What one call stores** in a database: the rows and their number, the three lists, and the event or its absence. -/
structure Recorded (db : Database) (c : SnapshotCall) : Prop where
  rows : ((db.record c).1.packagesOf c.snapshot.repoId).Perm c.snapshot.rows
  others : ∀ row, row.repoId ≠ c.snapshot.repoId →
    (row ∈ (db.record c).1.repoPackages.rows ↔ row ∈ db.repoPackages.rows)
  count : ((db.record c).1.repoState.get c.snapshot.repoId).bind RepoState.packageCount =
    some ((db.record c).1.packagesOf c.snapshot.repoId).length
  new : ∀ key, key ∈ (db.record c).2.newPackages ↔
    key ∈ c.snapshot.packages.keys ∧ key ∉ db.listedKeys c.snapshot.repoId
  removed : ∀ key, key ∈ (db.record c).2.removedPackages ↔
    key ∈ db.listedKeys c.snapshot.repoId ∧ key ∉ c.snapshot.packages.keys
  modified : ∀ key, key ∈ (db.record c).2.modifiedPackages ↔
    ∃ filename old, c.snapshot.packages.lookup key = some filename ∧
      db.repoPackages.get (c.snapshot.repoId, key) = some old ∧
      ModifiedBy old filename (c.snapshot.contentHashes.lookup key)
  newRemoved : (db.record c).2.newPackages.Disjoint (db.record c).2.removedPackages
  newModified : (db.record c).2.newPackages.Disjoint (db.record c).2.modifiedPackages
  removedModified : (db.record c).2.removedPackages.Disjoint (db.record c).2.modifiedPackages
  event : if (db.record c).2.newPackages = [] ∧ (db.record c).2.removedPackages = [] ∧
        (db.record c).2.modifiedPackages = [] then
      (db.record c).1.repoEvents = db.repoEvents ∧
      (db.record c).1.changedAt c.snapshot.repoId = db.changedAt c.snapshot.repoId
    else
      (db.record c).1.repoEvents = db.repoEvents ++ [db.eventOf c] ∧
      (db.record c).1.changedAt c.snapshot.repoId = some c.info.now

theorem recorded (db : Database) (c : SnapshotCall) : db.Recorded c where
  rows := packagesOf_record db c
  others := fun _ h => mem_repoPackages_record_of_ne h
  count := packageCount_record db c
  new := fun _ => mem_newPackages
  removed := fun _ => mem_removedPackages
  modified := fun _ => mem_modifiedPackages
  newRemoved := by
    intro key hnew hremoved
    exact (mem_removedPackages.1 hremoved).2 (mem_newPackages.1 hnew).1
  newModified := by
    intro key hnew hmodified
    obtain ⟨_, old, -, hold, -⟩ := mem_modifiedPackages.1 hmodified
    exact (mem_newPackages.1 hnew).2 (mem_listedKeys.2 ⟨old, hold⟩)
  removedModified := by
    intro key hremoved hmodified
    obtain ⟨filename, _, hfile, -⟩ := mem_modifiedPackages.1 hmodified
    exact (mem_removedPackages.1 hremoved).2 (RepoSnapshot.mem_keys_iff_lookup.2 ⟨filename, hfile⟩)
  event := by
    rw [repoEvents_record, changedAt_record]
    cases hchanged : c.snapshot.changed db with
    | false =>
      rw [if_pos ((changed_iff db c).1 hchanged)]
      exact ⟨rfl, rfl⟩
    | true =>
      rw [if_neg fun h => by rw [(changed_iff db c).2 h] at hchanged; cases hchanged]
      exact ⟨rfl, rfl⟩

/-- **The snapshot store and its event log**, after any calls: the next call stores its snapshot, and the events of every
repository replay to its keys. -/
theorem snapshots_logged (calls : List SnapshotCall) (c : SnapshotCall) :
    (recordAll calls).Recorded c ∧
    ∀ r, (recordAll (calls ++ [c])).replayed r = (recordAll (calls ++ [c])).listedKeys r :=
  ⟨recorded _ c, replayed_recordAll _⟩

end Database
end RepoWatch
