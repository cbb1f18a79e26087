import Mathlib.Data.List.Dedup
import Mathlib.Data.List.ReduceOption
import RepoWatch.Database
/-!
# Duplicates — the files of one hash and their canonical owner

`findDuplicateFiles` groups the catalog by repository and path, keeps the groups whose rows agree on one known hash, and
pairs every file with the first file of its hash.  What a reader of the query needs is `mem_files` (which files have an
identity) and `mem_findDuplicateFiles` (a file, and the canonical file of its hash).
-/
namespace RepoWatch

open Lib

/-- A group of the catalog whose rows agree on one known hash. -/
structure FileHash where
  repoId : Str
  filename : Str
  hash : Str
  deriving DecidableEq

/-- A row of the duplicate query. -/
structure DuplicateFile where
  repoId : Str
  canonical : Str
  filename : Str
  canonicalFilename : Str
  deriving DecidableEq

def FileHash.key (f : FileHash) : Str × Str := (f.repoId, f.filename)
def PackageRow.file (r : PackageRow) : Str × Str := (r.repoId, r.filename)

/-- `MIN(content_hash)` of a group that has no null, one distinct hash, and no empty hash. -/
def groupHash (hashes : List (Option Str)) : Option Str :=
  let known := hashes.reduceOption
  match known.dedup with
  | [h] => if known.length = hashes.length ∧ h ≠ [] then some h else none
  | _ => none

namespace Database

def hashesOf (db : Database) (file : Str × Str) : List (Option Str) :=
  (db.repoPackages.rows.filter (fun r => r.file = file)).map PackageRow.contentHash

/-- The subquery `files`. -/
def files (db : Database) : List FileHash :=
  (db.repoPackages.rows.map PackageRow.file).dedup.filterMap fun file =>
    (groupHash (db.hashesOf file)).map fun hash => ⟨file.1, file.2, hash⟩

def filesInOrder (db : Database) : List FileHash := db.files.insertionSort (fun f g => pairLe f.key g.key)

/-- `FIRST_VALUE(…) OVER (PARTITION BY hash ORDER BY repo_id, filename)`. -/
def canonicalFile (db : Database) (hash : Str) : Option FileHash := db.filesInOrder.find? (fun f => f.hash = hash)

/-- `CacheStore.find_duplicate_files`. -/
def findDuplicateFiles (db : Database) : List DuplicateFile :=
  db.filesInOrder.filterMap fun f => (db.canonicalFile f.hash).bind fun c =>
    if f.key = c.key then none else some ⟨f.repoId, c.repoId, f.filename, c.filename⟩

/-- `CacheStore.iter_file_hashes`. -/
def iterFileHashes (db : Database) : List (Str × Str × Option Str) :=
  db.repoPackages.rows.map fun r => (r.repoId, r.filename, r.contentHash)

end Database

theorem groupHash_eq_some {hashes : List (Option Str)} {h : Str} :
    groupHash hashes = some h ↔ hashes ≠ [] ∧ (∀ x ∈ hashes, x = some h) ∧ h ≠ [] := by
  have hmem : ∀ a, a ∈ hashes.reduceOption ↔ some a ∈ hashes := fun a => List.reduceOption_mem_iff
  unfold groupHash
  dsimp only
  constructor
  · intro hg
    split at hg
    · rename_i g hd
      split at hg
      · rename_i hc
        cases hg
        have hone : ∀ a ∈ hashes.reduceOption, a = h := fun a ha => by
          rw [← List.mem_dedup, hd] at ha
          simpa using ha
        refine ⟨?_, fun x hx => ?_, hc.2⟩
        · rintro rfl
          cases hd
        · obtain ⟨a, rfl⟩ := Option.isSome_iff_exists.1 (List.reduceOption_length_eq_iff.1 hc.1 x hx)
          rw [hone a ((hmem a).2 hx)]
      · cases hg
    · cases hg
  · rintro ⟨hne, hall, hh⟩
    have hlen := List.reduceOption_length_eq_iff.2 fun x hx => by rw [hall x hx]; rfl
    have hd : hashes.reduceOption.dedup = [h] := by
      have hrep : hashes = List.replicate hashes.length (some h) := List.eq_replicate_iff.2 ⟨rfl, hall⟩
      obtain ⟨n, hn⟩ := Nat.exists_eq_succ_of_ne_zero (List.length_pos_iff.2 hne).ne'
      have hred : hashes.reduceOption = List.replicate hashes.length h := by
        rw [List.eq_replicate_iff]
        exact ⟨hlen, fun a ha => Option.some.inj (hall _ ((hmem a).1 ha))⟩
      rw [hred, hn, List.replicate_dedup (Nat.succ_ne_zero n)]
    rw [hd]
    simp [hlen, hh]

namespace Database
variable {db : Database}

/-- **The files with an identity**: some row names the file, and all its rows carry one non-empty hash. -/
theorem mem_files {f : FileHash} : f ∈ db.files ↔ (∃ r ∈ db.repoPackages.rows, r.file = f.key) ∧
    (∀ r ∈ db.repoPackages.rows, r.file = f.key → r.contentHash = some f.hash) ∧ f.hash ≠ [] := by
  have hg : groupHash (db.hashesOf f.key) = some f.hash ↔ (∃ r ∈ db.repoPackages.rows, r.file = f.key) ∧
      (∀ r ∈ db.repoPackages.rows, r.file = f.key → r.contentHash = some f.hash) ∧ f.hash ≠ [] := by
    rw [groupHash_eq_some]
    simp only [hashesOf, ne_eq, List.map_eq_nil_iff, List.filter_eq_nil_iff, decide_eq_true_eq, not_forall, not_not,
      exists_prop, List.mem_map, List.mem_filter, forall_exists_index, and_imp]
    exact and_congr_right' (and_congr_left' ⟨fun h r hr hf => h _ r hr hf rfl, fun h _ r hr hf he => he ▸ h r hr hf⟩)
  rw [← hg, files, List.mem_filterMap]
  constructor
  · rintro ⟨file, -, h⟩
    obtain ⟨hash, hh, rfl⟩ := Option.map_eq_some_iff.1 h
    exact hh
  · intro h
    obtain ⟨⟨r, hr, hrf⟩, -⟩ := hg.1 h
    exact ⟨f.key, List.mem_dedup.2 (hrf ▸ List.mem_map_of_mem hr), by rw [h]; rfl⟩

theorem mem_filesInOrder {f : FileHash} : f ∈ db.filesInOrder ↔ f ∈ db.files := List.mem_insertionSort _

theorem files_hash_unique {f g : FileHash} (hf : f ∈ db.files) (hg : g ∈ db.files) (hk : f.key = g.key) : f = g := by
  obtain ⟨⟨r, hr, hrf⟩, hall, -⟩ := mem_files.1 hf
  have h1 := hall r hr hrf
  have h2 := (mem_files.1 hg).2.1 r hr (hrf.trans hk)
  rw [h1, Option.some.injEq] at h2
  cases f
  cases g
  simp_all [FileHash.key]

theorem canonicalFile_mem {hash : Str} {c : FileHash} (h : db.canonicalFile hash = some c) :
    c ∈ db.files ∧ c.hash = hash :=
  ⟨mem_filesInOrder.1 (List.mem_of_find?_eq_some h), by simpa using List.find?_some h⟩

/-- **The rows of the duplicate query**: a file and the canonical file of its hash, when they differ. -/
theorem mem_findDuplicateFiles {d : DuplicateFile} : d ∈ db.findDuplicateFiles ↔
    ∃ f ∈ db.files, ∃ c ∈ db.files, c.hash = f.hash ∧ db.canonicalFile f.hash = some c ∧ f.key ≠ c.key ∧
      d = ⟨f.repoId, c.repoId, f.filename, c.filename⟩ := by
  unfold findDuplicateFiles
  simp only [List.mem_filterMap, mem_filesInOrder, Option.bind_eq_some_iff]
  constructor
  · rintro ⟨f, hf, c, hc, h⟩
    split at h
    · cases h
    · rename_i hk
      cases h
      obtain ⟨hcm, hch⟩ := canonicalFile_mem hc
      exact ⟨f, hf, c, hcm, hch, hc, hk, rfl⟩
  · rintro ⟨f, hf, c, -, -, hc, hk, rfl⟩
    exact ⟨f, hf, c, hc, by rw [if_neg hk]⟩

/-! ## What the query depends on -/

/-- Two catalogs that show the same owners of every file, in any order. -/
def SameFiles (db db' : Database) : Prop := ∀ x, x ∈ db.iterFileHashes ↔ x ∈ db'.iterFileHashes

theorem mem_files_iff {f : FileHash} : f ∈ db.files ↔ (∃ c, (f.repoId, f.filename, c) ∈ db.iterFileHashes) ∧
    (∀ c, (f.repoId, f.filename, c) ∈ db.iterFileHashes → c = some f.hash) ∧ f.hash ≠ [] := by
  rw [mem_files]
  simp only [iterFileHashes, List.mem_map, Prod.mk.injEq, PackageRow.file, FileHash.key]
  constructor
  · rintro ⟨⟨r, hr, hf⟩, hall, hne⟩
    exact ⟨⟨_, r, hr, hf.1, hf.2, rfl⟩, fun c ⟨r, hr, h1, h2, h3⟩ => h3 ▸ hall r hr ⟨h1, h2⟩, hne⟩
  · rintro ⟨⟨-, r, hr, h1, h2, -⟩, hall, hne⟩
    exact ⟨⟨r, hr, h1, h2⟩, fun r hr hf => hall _ ⟨r, hr, hf.1, hf.2, rfl⟩, hne⟩

theorem nodup_files (db : Database) : db.files.Nodup := by
  unfold files
  refine (List.nodup_dedup _).filterMap ?_
  rintro ⟨r, n⟩ ⟨r', n'⟩ f ha ha'
  obtain ⟨h, -, rfl⟩ := Option.map_eq_some_iff.1 ha
  obtain ⟨h', -, he⟩ := Option.map_eq_some_iff.1 ha'
  cases he
  rfl

/-- **The files in order** depend on what the catalog shows only. -/
theorem filesInOrder_congr {db' : Database} (h : db.SameFiles db') : db.filesInOrder = db'.filesInOrder := by
  have hmem : ∀ f, f ∈ db.files ↔ f ∈ db'.files := fun f => by
    unfold SameFiles at h
    rw [mem_files_iff, mem_files_iff]
    simp only [h]
  have hperm : db.filesInOrder.Perm db'.filesInOrder :=
    (List.perm_insertionSort _ _).trans (((List.perm_ext_iff_of_nodup db.nodup_files db'.nodup_files).2 hmem).trans
      (List.perm_insertionSort _ _).symm)
  have hsorted : ∀ db : Database, db.filesInOrder.Pairwise fun f g => pairLe f.key g.key := fun db =>
    List.pairwise_insertionSort _ _
  refine hperm.eq_of_pairwise (fun f g hf hg hle hge => ?_) (hsorted db) (hsorted db')
  exact files_hash_unique (mem_filesInOrder.1 hf) ((hmem g).2 (mem_filesInOrder.1 hg)) (pairLe_antisymm hle hge)

theorem findDuplicateFiles_congr {db' : Database} (h : db.SameFiles db') :
    db.findDuplicateFiles = db'.findDuplicateFiles := by
  unfold findDuplicateFiles canonicalFile
  rw [filesInOrder_congr h]

end Database
end RepoWatch
