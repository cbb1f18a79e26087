import RepoWatch.Duplicates
import RepoWatch.EventLog
/-!
# SharedTargets — the shared location that a replacement remembers

With dedup on, the bytes of a file are served under the canonical file of its hash.  When a snapshot replaces the bytes
of a key it queues one more location, the one its own query finds (`sharedOwner`): the least repository that lists the
old path with the old hash.  `served_remembered_iff` says when the two agree.
-/
namespace RepoWatch

open Lib

namespace Database
variable {db : Database} {s : RepoSnapshot} {m : CheckMeta} {uuid : Str → Str}

/-- `find_duplicate_files` maps the file to the location. -/
def ServedFrom (db : Database) (file location : Str × Str) : Prop :=
  (⟨file.1, location.1, file.2, location.2⟩ : DuplicateFile) ∈ db.findDuplicateFiles

instance (file location : Str × Str) : Decidable (db.ServedFrom file location) :=
  inferInstanceAs (Decidable (_ ∈ db.findDuplicateFiles))

/-- The targets that are queued for a key. -/
def queuedTargets (db : Database) (pk : Str × Str) : List (Str × Str) :=
  ((db.pendingReplacements.get pk).map PendingRow.targets).getD []

/-- **The least owner of a path and hash**: some row lists them under it, and every other under a later one. -/
theorem sharedOwner_eq_some {filename : Str} {hash : Option Str} {owner : Str} :
    db.sharedOwner filename hash = some owner ↔
      (∃ row ∈ db.repoPackages.rows, row.filename = filename ∧ row.contentHash = hash ∧ row.repoId = owner) ∧
      ∀ row ∈ db.repoPackages.rows, row.filename = filename → row.contentHash = hash → owner ≤ row.repoId := by
  set ids := (db.repoPackages.rows.filter fun r => r.filename = filename ∧ r.contentHash = hash).map PackageRow.repoId
    with hids
  have hmem : ∀ id, id ∈ sortedStr ids ↔
      ∃ row ∈ db.repoPackages.rows, row.filename = filename ∧ row.contentHash = hash ∧ row.repoId = id := by
    intro id
    rw [mem_sortedStr, hids]
    simp only [List.mem_map, List.mem_filter, decide_eq_true_eq, and_assoc]
  have hsorted := pairwise_sortedStr ids
  unfold sharedOwner
  rw [← hids]
  constructor
  · intro h
    obtain ⟨rest, hcons⟩ := List.head?_eq_some_iff.1 h
    rw [hcons, List.pairwise_cons] at hsorted
    refine ⟨(hmem owner).1 (by rw [hcons]; exact List.mem_cons_self), fun row hrow hf hh => ?_⟩
    have hid := (hmem row.repoId).2 ⟨row, hrow, hf, hh, rfl⟩
    rw [hcons] at hid
    rcases List.mem_cons.1 hid with heq | hrest
    · exact le_of_eq heq.symm
    · exact hsorted.1 _ hrest
  · rintro ⟨hsome, hleast⟩
    have howner := (hmem owner).2 hsome
    cases hcons : sortedStr ids with
    | nil => rw [hcons] at howner; cases howner
    | cons first rest =>
      rw [hcons, List.pairwise_cons] at hsorted
      obtain ⟨row, hrow, hf, hh, hid⟩ := (hmem first).1 (by rw [hcons]; exact List.mem_cons_self)
      have hle : first ≤ owner := by
        rw [hcons] at howner
        rcases List.mem_cons.1 howner with heq | hrest
        · exact le_of_eq heq.symm
        · exact hsorted.1 _ hrest
      rw [List.head?_cons, le_antisymm hle (hid ▸ hleast row hrow hf hh)]

/-- A served file lists one known hash, which its location lists too. -/
theorem served_hash {row : PackageRow} (hrow : row ∈ db.repoPackages.rows) {location : Str × Str}
    (h : db.ServedFrom row.file location) : known row.contentHash = true ∧
      ∃ row' ∈ db.repoPackages.rows, row'.file = location ∧ row'.contentHash = row.contentHash := by
  obtain ⟨f, hf, c, hc, hhash, -, -, heq⟩ := mem_findDuplicateFiles.1 h
  have hfile : row.file = f.key := by
    rw [DuplicateFile.mk.injEq] at heq
    exact Prod.ext heq.1 heq.2.2.1
  have hloc : c.key = location := by
    rw [DuplicateFile.mk.injEq] at heq
    exact (Prod.ext heq.2.1 heq.2.2.2).symm
  obtain ⟨-, hall, hne⟩ := mem_files.1 hf
  obtain ⟨⟨row', hrow', hfile'⟩, hall', -⟩ := mem_files.1 hc
  rw [hall row hrow hfile]
  exact ⟨known_some.2 hne, row', hrow', hfile'.trans hloc, by rw [hall' row' hrow' hfile', hhash]⟩

/-- What makes a snapshot queue a location for a key whose row was `old`: it is queued already, it is the new path, or it
is the old path under the least repository that lists the old hash there. -/
def Remembers (db : Database) (s : RepoSnapshot) (key : Str) (old : PackageRow) (location : Str × Str) : Prop :=
  location ∈ db.queuedTargets (s.repoId, key) ∨
  (location.1 = s.repoId ∧ s.packages.lookup key = some location.2) ∨
  (location.2 = old.filename ∧ location.1 ≠ [] ∧ ∀ row ∈ db.repoPackages.rows, row.filename = old.filename →
    row.contentHash = old.contentHash → location.1 ≤ row.repoId)

/-- **A replacement remembers the location in use** exactly when that location is queued already, is the new path, or is
the old path under the least repository that lists the old hash there; both paths of the key it always remembers. -/
theorem served_remembered_iff {key filename : Str} {old : PackageRow} {location : Str × Str}
    (hmodified : key ∈ s.modifiedKeys db) (hold : s.previous db key = some old)
    (hfile : s.packages.lookup key = some filename) (hserved : db.ServedFrom (s.repoId, old.filename) location) :
    (∃ row, (db.recordSnapshot s m uuid).1.pendingReplacements.get (s.repoId, key) = some row ∧
      location ∈ row.targets ∧ (s.repoId, old.filename) ∈ row.targets ∧ (s.repoId, filename) ∈ row.targets) ↔
      db.Remembers s key old location := by
  obtain ⟨hrow, hpk⟩ := Table.get_eq_some_iff.1 hold
  have hrepo : old.repoId = s.repoId := (Prod.mk.inj hpk).1
  obtain ⟨hknown, row', hrow', hloc, hhash⟩ := served_hash hrow (show db.ServedFrom old.file location by
    rw [PackageRow.file, hrepo]; exact hserved)
  have hwritten : (db.recordSnapshot s m uuid).1.pendingReplacements.get (s.repoId, key) =
      some (db.pendingRow s uuid key old filename) := by
    rw [get_pendingReplacements_recordSnapshot, if_pos ⟨rfl, hmodified⟩, hold, hfile]
    rfl
  have htargets : location ∈ (db.pendingRow s uuid key old filename).targets ↔ db.Remembers s key old location := by
    refine mem_replacementTargets.trans (or_congr_right ?_)
    have hne : location ≠ (s.repoId, old.filename) := by
      rintro rfl
      obtain ⟨f, -, c, -, -, -, hfc, heq⟩ := mem_findDuplicateFiles.1 hserved
      rw [DuplicateFile.mk.injEq] at heq
      exact hfc (Prod.ext (heq.1.symm.trans heq.2.1) (heq.2.2.1.symm.trans heq.2.2.2))
    rw [or_iff_right hne]
    refine or_congr ?_ ?_
    · rw [hfile, Option.some.injEq]
      exact ⟨fun h => ⟨congrArg Prod.fst h, (congrArg Prod.snd h).symm⟩, fun h => Prod.ext h.1 h.2.symm⟩
    · constructor
      · rintro ⟨-, owner, howner, hempty, rfl⟩
        exact ⟨rfl, hempty, (sharedOwner_eq_some.1 howner).2⟩
      · rintro ⟨hpath, hempty, hleast⟩
        refine ⟨hknown, location.1, sharedOwner_eq_some.2 ⟨⟨row', hrow', ?_, hhash, ?_⟩, hleast⟩, hempty,
          Prod.ext rfl hpath⟩
        · exact (congrArg Prod.snd hloc).trans hpath
        · exact congrArg Prod.fst hloc
  constructor
  · rintro ⟨row, hget, hmem, -, -⟩
    rw [hwritten, Option.some.injEq] at hget
    subst hget
    exact htargets.1 hmem
  · intro h
    exact ⟨_, hwritten, htargets.2 h, mem_replacementTargets.2 (Or.inr (Or.inl rfl)),
      mem_replacementTargets.2 (Or.inr (Or.inr (Or.inl rfl)))⟩

/-- Two repositories list the same bytes under one path. -/
def samePath : Database :=
  recordAll [⟨.listing "a" [("k", "foo.rpm", "A")], { now := [] }, id⟩, ⟨.listing "r" [("k", "foo.rpm", "A")], { now := [] }, id⟩]

theorem served_remembered_samePath : samePath.Remembers (.listing "r" [("k", "foo.rpm", "B")]) "k".toList
    ⟨"r".toList, "k".toList, none, "foo.rpm".toList, some "A".toList⟩ ("a".toList, "foo.rpm".toList) :=
  (@served_remembered_iff samePath (.listing "r" [("k", "foo.rpm", "B")]) { now := [] } id "k".toList "foo.rpm".toList
    _ _ (by decide) (by decide) (by decide) (by decide)).1 ⟨_, rfl, by decide, by decide, by decide⟩

/-- Two repositories list the same bytes under different paths. -/
def otherPath : Database :=
  recordAll [⟨.listing "a" [("k", "x.rpm", "A")], { now := [] }, id⟩, ⟨.listing "r" [("k", "y.rpm", "A")], { now := [] }, id⟩]

/-- The bytes of `y.rpm` are served under `x.rpm` of the other repository, which the replacement forgets. -/
theorem served_forgotten :
    otherPath.ServedFrom ("r".toList, "y.rpm".toList) ("a".toList, "x.rpm".toList) ∧
    ((RepoSnapshot.listing "r" [("k", "y.rpm", "B")]).modifiedKeys otherPath) = ["k".toList] ∧
    ∃ row, (otherPath.recordSnapshot (.listing "r" [("k", "y.rpm", "B")]) { now := [] } id).1.pendingReplacements.get
      ("r".toList, "k".toList) = some row ∧ ("a".toList, "x.rpm".toList) ∉ row.targets :=
  ⟨by decide, by decide, _, rfl, by decide⟩

end Database
end RepoWatch
