import RepoWatch.Lib.Run
import RepoWatch.Duplicates
import RepoWatch.Repositories
/-!
# Revisions — what equal snapshot revisions say about the catalog

The revision of a repository grows with every snapshot that changes its rows and restarts when its rows are deleted.
`RevisionOp.apply_cases` says once what an operation can do to a repository; from it, equal revision maps mean equal
catalogs unless a repository was deleted and filled again in between (`revisions_run`).
-/
namespace RepoWatch

open Lib

inductive RevisionOp where
  | recordSnapshot (s : RepoSnapshot) (m : CheckMeta) (uuid : Str → Str)
  | recordKeyExpiry (repoId : Str) (expiresAt : Option Str) (isKnown : Option Bool)
  | touchLastCheck (repoId now : Str)
  | deleteRepoRows (repoId : Str)
  | purgeOrphanedRepos (active repoIds : List Str)

namespace RevisionOp

def apply (db : Database) : RevisionOp → Database
  | recordSnapshot s m uuid => (db.recordSnapshot s m uuid).1
  | recordKeyExpiry repoId expiresAt isKnown => db.recordKeyExpiry repoId expiresAt isKnown
  | touchLastCheck repoId now => db.touchLastCheck repoId now
  | deleteRepoRows repoId => db.deleteRepoRows repoId
  | purgeOrphanedRepos active repoIds => db.purgeOrphanedRepos active repoIds

/-- The operation stores a snapshot of the repository. -/
def snapshots (r : Str) : RevisionOp → Bool
  | recordSnapshot s _ _ => s.repoId == r
  | _ => false

/-- The operation deletes the rows of the repository. -/
def deletes (r : Str) : RevisionOp → Bool
  | deleteRepoRows repoId => repoId == r
  | purgeOrphanedRepos active repoIds => repoIds.contains r && !active.contains r
  | _ => false

/-- The repository is deleted and later given a snapshot. -/
def readded (r : Str) : List RevisionOp → Bool
  | [] => false
  | op :: ops => (op.deletes r && ops.any (snapshots r)) || readded r ops

abbrev Reached (db : Database) (ops : List RevisionOp) (db' : Database) : Prop :=
  Run (fun db op db' => db' = apply db op) db ops db'

end RevisionOp

namespace Database
variable {db : Database}

def revision (db : Database) (r : Str) : Option Nat := (db.repoState.get r).map RepoState.snapshotRevision

/-- The path and hash of a package. -/
def content (db : Database) (pk : Str × Str) : Option (Str × Option Str) :=
  (db.repoPackages.get pk).map fun row => (row.filename, row.contentHash)

theorem lookup_getSnapshotRevisions (db : Database) (r : Str) : db.getSnapshotRevisions.lookup r = db.revision r := by
  unfold getSnapshotRevisions revision
  cases h : db.repoState.get r with
  | none =>
    refine Dict.lookup_ofPairs_eq_none fun hm => ?_
    simp only [List.map_map, List.mem_map, Function.comp_apply] at hm
    obtain ⟨state, hs, rfl⟩ := hm
    exact Table.get_eq_none_iff.1 h state hs rfl
  | some state =>
    obtain ⟨hs, rfl⟩ := Table.get_eq_some_iff.1 h
    refine Dict.lookup_ofPairs_eq_some (by simpa using ⟨state, hs, rfl⟩) fun p hp hk => ?_
    obtain ⟨state', hs', rfl⟩ := List.mem_map.1 hp
    have := Table.get_of_mem hs'
    rw [show state'.repoId = state.repoId from hk, h] at this
    rw [Option.some.inj this]

/-- Catalogs with the same contents show the same owners. -/
theorem sameFiles_of_content {db db' : Database} (h : ∀ pk, db.content pk = db'.content pk) : db.SameFiles db' := by
  have hmem : ∀ (db : Database) (x : Str × Str × Option Str), x ∈ db.iterFileHashes ↔
      ∃ k, db.content (x.1, k) = some x.2 := fun db x => by
    unfold iterFileHashes content
    rw [List.mem_map]
    constructor
    · rintro ⟨row, hrow, rfl⟩
      exact ⟨row.packageKey, by rw [show (row.repoId, row.packageKey) = row.pk from rfl, Table.get_of_mem hrow]; rfl⟩
    · rintro ⟨k, hk⟩
      obtain ⟨row, hrow, hx⟩ := Option.map_eq_some_iff.1 hk
      obtain ⟨hrow, hpk⟩ := Table.get_eq_some_iff.1 hrow
      exact ⟨row, hrow, Prod.ext (show row.repoId = x.1 from congrArg Prod.fst hpk) hx⟩
  intro x
  rw [hmem, hmem]
  simp only [h]

/-- A snapshot that changes nothing in the catalog leaves every path and hash of its repository. -/
theorem content_recordSnapshot {s : RepoSnapshot} {m : CheckMeta} {uuid : Str → Str}
    (h : s.catalogChanged db = false) (k : Str) :
    (db.recordSnapshot s m uuid).1.content (s.repoId, k) = db.content (s.repoId, k) := by
  unfold RepoSnapshot.catalogChanged at h
  rw [Bool.or_eq_false_iff, RepoSnapshot.changed_eq_false, List.any_eq_false] at h
  obtain ⟨⟨hkeys, hmod⟩, hhash⟩ := h
  unfold content
  rw [previous_recordSnapshot]
  cases hl : s.packages.lookup k with
  | none => rw [show db.repoPackages.get (s.repoId, k) = none from (hkeys k).1 hl]; rfl
  | some filename =>
    cases hp : s.previous db k with
    | none => rw [(hkeys k).2 hp] at hl; cases hl
    | some old =>
      have hnot : isModified old filename (s.contentHashes.lookup k) = false := by
        by_contra hm
        have : k ∈ s.modifiedKeys db :=
          RepoSnapshot.mem_modifiedKeys.2 ⟨filename, old, hl, hp, by simpa using hm⟩
        rw [hmod] at this
        cases this
      have hsame := hhash k (RepoSnapshot.mem_keys_iff_lookup.2 ⟨filename, hl⟩)
      rw [hp] at hsame
      simp only [isModified, Bool.or_eq_false_iff, decide_eq_false_iff_not, not_not] at hnot
      simp only [Option.any_some, decide_eq_true_eq, not_not] at hsame
      rw [show db.repoPackages.get (s.repoId, k) = some old from hp]
      simp [RepoSnapshot.row, hnot.1, hsame]

end Database

namespace RevisionOp
variable {db db' : Database} {ops : List RevisionOp} {op : RevisionOp}

/-- **What an operation can do to a repository**: delete it, give it its first snapshot, give it another one that changes
the revision or else no row, or touch neither its revision (but for a fresh row) nor its packages. -/
theorem apply_cases (db : Database) (op : RevisionOp) (r : Str) :
    (op.deletes r = true ∧ (apply db op).revision r = none ∧ ∀ k, (apply db op).repoPackages.get (r, k) = none) ∨
    (op.snapshots r = true ∧ db.revision r = none ∧ (apply db op).revision r = some 1) ∨
    (op.snapshots r = true ∧ ∃ n, db.revision r = some n ∧ ((apply db op).revision r = some (n + 1) ∨
      (apply db op).revision r = some n ∧ ∀ k, (apply db op).content (r, k) = db.content (r, k))) ∨
    (op.snapshots r = false ∧ op.deletes r = false ∧
      ((apply db op).revision r = db.revision r ∨ db.revision r = none ∧ (apply db op).revision r = some 0) ∧
      ∀ k, (apply db op).repoPackages.get (r, k) = db.repoPackages.get (r, k)) := by
  cases op with
  | recordSnapshot s m uuid =>
    by_cases hr : r = s.repoId
    · subst hr
      have hrev : (apply db (.recordSnapshot s m uuid)).revision s.repoId =
          some (db.snapshotState s m (s.changed db) (s.catalogChanged db)).snapshotRevision := by
        unfold apply Database.revision
        dsimp only
        rw [Database.get_repoState_recordSnapshot, if_pos rfl]
        rfl
      have hsnap : snapshots s.repoId (.recordSnapshot s m uuid) = true := by simp [snapshots]
      unfold Database.snapshotState at hrev
      cases hst : db.repoState.get s.repoId with
      | none =>
        rw [hst] at hrev
        exact Or.inr (Or.inl ⟨hsnap, by rw [Database.revision, hst]; rfl, hrev⟩)
      | some state =>
        rw [hst] at hrev
        refine Or.inr (Or.inr (Or.inl ⟨hsnap, state.snapshotRevision, by rw [Database.revision, hst]; rfl, ?_⟩))
        cases hc : s.catalogChanged db with
        | true => rw [hc] at hrev; exact Or.inl hrev
        | false => rw [hc] at hrev; exact Or.inr ⟨hrev, Database.content_recordSnapshot hc⟩
    · refine Or.inr (Or.inr (Or.inr ⟨by simpa [snapshots] using Ne.symm hr, rfl, Or.inl ?_, fun k => ?_⟩))
      · unfold apply Database.revision
        dsimp only
        rw [Database.get_repoState_recordSnapshot, if_neg hr]
      · unfold apply
        dsimp only
        rw [Database.get_repoPackages_recordSnapshot, if_neg hr]
  | recordKeyExpiry repoId expiresAt isKnown =>
    refine Or.inr (Or.inr (Or.inr ⟨rfl, rfl, ?_, fun k => rfl⟩))
    unfold apply Database.revision Database.recordKeyExpiry
    dsimp only
    rw [Table.get_upsert]
    by_cases hr : r = repoId
    · subst hr
      cases hst : db.repoState.get r with
      | none => exact Or.inr ⟨rfl, by simp⟩
      | some state => exact Or.inl (by simp [show state.repoId = r from Table.key_of_get hst])
    · refine Or.inl ?_
      cases hst : db.repoState.get repoId with
      | none => simp [hr]
      | some state => simp [show state.repoId = repoId from Table.key_of_get hst, hr]
  | touchLastCheck repoId now =>
    refine Or.inr (Or.inr (Or.inr ⟨rfl, rfl, Or.inl ?_, fun k => ?_⟩))
    · unfold apply Database.revision Database.touchLastCheck
      dsimp only
      cases hst : db.repoState.get repoId with
      | none => rfl
      | some state =>
        dsimp only
        rw [Table.get_upsert]
        have hid : state.repoId = repoId := Table.key_of_get hst
        by_cases hr : r = repoId
        · subst hr; simp [hid, hst]
        · simp [hid, hr]
    · unfold apply Database.touchLastCheck
      dsimp only
      split <;> rfl
  | deleteRepoRows repoId =>
    by_cases hr : r = repoId
    · subst hr
      refine Or.inl ⟨by simp [deletes], ?_, fun k => ?_⟩
      · unfold apply Database.revision
        dsimp only
        rw [Database.get_repoState_deleteRepoRows, if_pos rfl]
        rfl
      · exact (Database.get_repoPackages_deleteRepoRows ..).trans (if_pos rfl)
    · refine Or.inr (Or.inr (Or.inr ⟨rfl, by simpa [deletes] using Ne.symm hr, Or.inl ?_, fun k => ?_⟩))
      · unfold apply Database.revision
        dsimp only
        rw [Database.get_repoState_deleteRepoRows, if_neg hr]
      · exact (Database.get_repoPackages_deleteRepoRows ..).trans (if_neg hr)
  | purgeOrphanedRepos active repoIds =>
    have hget := fun k => Database.get_purgeOrphanedRepos active r k repoIds db
    by_cases hr : r ∈ repoIds ∧ r ∉ active
    · refine Or.inl ⟨by simpa [deletes] using hr, ?_, fun k => (hget k).2.trans (if_pos hr)⟩
      unfold apply Database.revision
      dsimp only
      rw [(hget []).1, if_pos hr]
      rfl
    · refine Or.inr (Or.inr (Or.inr ⟨rfl, ?_, Or.inl ?_, fun k => (hget k).2.trans (if_neg hr)⟩))
      · simpa [deletes] using hr
      · unfold apply Database.revision
        dsimp only
        rw [(hget []).1, if_neg hr]

/-! ## Every run -/

/-- A repository with packages has a positive revision. -/
def Counted (db : Database) : Prop :=
  ∀ r k, db.content (r, k) ≠ none → ∃ n, db.revision r = some (n + 1)

theorem content_of_get {db db' : Database} {pk : Str × Str} (h : db'.repoPackages.get pk = db.repoPackages.get pk) :
    db'.content pk = db.content pk := by
  unfold Database.content
  rw [h]

theorem apply_counted (h : Counted db) (op : RevisionOp) : Counted (apply db op) := by
  intro r k hk
  rcases apply_cases db op r with ⟨-, -, hgone⟩ | ⟨-, -, hone⟩ | ⟨-, n, hn, hnext | ⟨hsame, hcontent⟩⟩ |
    ⟨-, -, hrev, hpack⟩
  · exact absurd (by rw [Database.content, hgone]; rfl) hk
  · exact ⟨0, hone⟩
  · exact ⟨n, hnext⟩
  · rw [hcontent] at hk
    obtain ⟨m, hm⟩ := h r k hk
    exact ⟨m, by rw [hsame, ← hn, hm]⟩
  · rw [content_of_get (hpack k)] at hk
    obtain ⟨m, hm⟩ := h r k hk
    rcases hrev with hrev | ⟨hnone, -⟩
    · exact ⟨m, by rw [hrev, hm]⟩
    · rw [hnone] at hm; cases hm

theorem counted_of_reached (h : Reached .empty ops db) : Counted db :=
  h.invariant Counted (fun db op db' hc hs => by rw [hs]; exact apply_counted hc op) fun r k hk => absurd rfl hk

theorem readded_append_singleton (r : Str) (op : RevisionOp) : ∀ ops : List RevisionOp,
    readded r (ops ++ [op]) = (readded r ops || (ops.any (deletes r) && op.snapshots r))
  | [] => by simp [readded]
  | x :: ops => by
    simp only [List.cons_append, readded, readded_append_singleton r op ops, List.any_append, List.any_cons, List.any_nil]
    cases x.deletes r <;> cases readded r ops <;> cases op.snapshots r <;> simp

theorem deletes_of_snapshots {r : Str} (h : op.snapshots r = true) : op.deletes r = false := by
  cases op <;> first | rfl | cases h

/-- What a repository has come to since an earlier state: a larger revision, or the same one and the same packages; or,
once it was deleted and given no snapshot since, revision 0 at most. -/
def Since (db : Database) (r : Str) (ops : List RevisionOp) (db' : Database) : Prop :=
  readded r ops = false →
    (ops.any (deletes r) = false → ∀ n, db.revision r = some n → ∃ n', db'.revision r = some n' ∧ n ≤ n' ∧
      (n' = n → ∀ k, db'.content (r, k) = db.content (r, k))) ∧
    (ops.any (deletes r) = true → ∀ n, db'.revision r = some n → n = 0)

theorem since_of_reached (h : Reached db ops db') (r : Str) : Since db r ops db' := by
  refine h.history (Since db r) (fun _ => ⟨fun _ n hn => ⟨n, hn, le_rfl, fun _ _ => rfl⟩, fun hd => by cases hd⟩) ?_
  rintro ops db₁ op _ - ih rfl hre
  rw [readded_append_singleton, Bool.or_eq_false_iff, Bool.and_eq_false_iff] at hre
  obtain ⟨hre, hlast⟩ := hre
  obtain ⟨hkept, hdel⟩ := ih hre
  simp only [List.any_append, List.any_cons, List.any_nil, Bool.or_false]
  rcases apply_cases db₁ op r with ⟨hd, hnone, -⟩ | ⟨hs, hnone, hone⟩ | ⟨hs, m, hm, hcase⟩ | ⟨-, hd, hrev, hpack⟩
  · rw [hd, Bool.or_true]
    exact ⟨fun h => by simp at h, fun _ n hn => by rw [hnone] at hn; cases hn⟩
  · have hno : ops.any (deletes r) = false := by simpa [hs] using hlast
    rw [hno, deletes_of_snapshots hs]
    refine ⟨fun _ n hn => ?_, fun hd => by simp at hd⟩
    obtain ⟨n', hn', -⟩ := hkept hno n hn
    rw [hnone] at hn'
    cases hn'
  · have hno : ops.any (deletes r) = false := by simpa [hs] using hlast
    rw [hno, deletes_of_snapshots hs]
    refine ⟨fun _ n hn => ?_, fun hd => by simp at hd⟩
    obtain ⟨n', hn', hle, hcontent⟩ := hkept hno n hn
    obtain rfl : m = n' := Option.some.inj (hm.symm.trans hn')
    rcases hcase with hnext | ⟨hsame, hpack⟩
    · exact ⟨m + 1, hnext, by omega, fun h => by omega⟩
    · exact ⟨m, hsame, hle, fun h k => (hpack k).trans (hcontent h k)⟩
  · rw [hd, Bool.or_false]
    refine ⟨fun hno n hn => ?_, fun hdels n hn => ?_⟩
    · obtain ⟨n', hn', hle, hcontent⟩ := hkept hno n hn
      rcases hrev with hrev | ⟨hnone, -⟩
      · exact ⟨n', by rw [hrev, hn'], hle, fun h k => (content_of_get (hpack k)).trans (hcontent h k)⟩
      · rw [hnone] at hn'
        cases hn'
    · rcases hrev with hrev | ⟨-, hzero⟩
      · exact hdel hdels n (hrev ▸ hn)
      · exact Option.some.inj (hn.symm.trans hzero)

/-- **Equal revisions mean equal contents**, unless a repository of the earlier state is deleted and given a snapshot. -/
theorem content_eq_of_revision_eq {before between : List RevisionOp} {db db' : Database} (h : Reached .empty before db)
    (h' : Reached db between db') (hreadded : ∀ r, db.revision r ≠ none → readded r between = false)
    (heq : ∀ r, db.revision r = db'.revision r) (pk : Str × Str) : db.content pk = db'.content pk := by
  obtain ⟨r, k⟩ := pk
  have hcount := counted_of_reached h
  have hcount' : Counted db' := counted_of_reached (h.append h')
  cases hrev : db.revision r with
  | none =>
    have hnone : ∀ db'', Counted db'' → db''.revision r = none → db''.content (r, k) = none := fun db'' hc hn => by
      by_contra hk
      obtain ⟨n, hn'⟩ := hc r k hk
      rw [hn] at hn'
      cases hn'
    rw [hnone db hcount hrev, hnone db' hcount' (by rw [← heq, hrev])]
  | some n =>
    obtain ⟨hkept, hdel⟩ := since_of_reached h' r (hreadded r (by rw [hrev]; simp))
    cases hd : between.any (deletes r) with
    | false =>
      obtain ⟨n', hn', -, hcontent⟩ := hkept hd n hrev
      refine (hcontent ?_ k).symm
      rw [← heq, hrev] at hn'
      exact (Option.some.inj hn').symm
    | true =>
      have hzero : ∀ db'', Counted db'' → db''.revision r = some n → db''.content (r, k) = none := fun db'' hc hn => by
        by_contra hk
        obtain ⟨m, hm⟩ := hc r k hk
        have : n = 0 := hdel hd n (by rw [← heq, hrev])
        rw [hn, Option.some.injEq] at hm
        omega
      rw [hzero db hcount hrev, hzero db' hcount' (by rw [← heq, hrev])]

theorem readded_of_not_deletes {r : Str} : ∀ {ops : List RevisionOp}, ops.any (deletes r) = false → readded r ops = false
  | [], _ => rfl
  | op :: ops, h => by
    rw [List.any_cons, Bool.or_eq_false_iff] at h
    rw [readded, h.1, readded_of_not_deletes h.2]
    rfl

theorem readded_of_not_snapshots {r : Str} : ∀ {ops : List RevisionOp}, ops.any (snapshots r) = false → readded r ops = false
  | [], _ => rfl
  | op :: ops, h => by
    rw [List.any_cons, Bool.or_eq_false_iff] at h
    rw [readded, h.2, readded_of_not_snapshots h.2, Bool.and_false]
    rfl

/-- Without a snapshot no package comes. -/
theorem content_none_of_not_snapshots {r k : Str} (h : Reached db ops db') (hsnap : ops.any (snapshots r) = false)
    (hnone : db.content (r, k) = none) : db'.content (r, k) = none := by
  refine h.history (fun ops db' => ops.any (snapshots r) = false → db'.content (r, k) = none) (fun _ => hnone) ?_ hsnap
  rintro ops db₁ op _ - ih rfl hsnap
  rw [List.any_append, Bool.or_eq_false_iff, List.any_cons, List.any_nil, Bool.or_false] at hsnap
  rcases apply_cases db₁ op r with ⟨-, -, hgone⟩ | ⟨hs, -⟩ | ⟨hs, -⟩ | ⟨-, -, -, hpack⟩
  · rw [Database.content, hgone]
    rfl
  · rw [hsnap.2] at hs
    cases hs
  · rw [hsnap.2] at hs
    cases hs
  · rw [content_of_get (hpack k)]
    exact ih hsnap.1

/-- The repository is not both deleted and given a snapshot. -/
def Steady (r : Str) (ops : List RevisionOp) : Prop := ops.any (deletes r) = false ∨ ops.any (snapshots r) = false

theorem content_none_of_revision (hcount : Counted db) {r k : Str} (h : ∀ n, db.revision r = some n → n = 0) :
    db.content (r, k) = none := by
  by_contra hk
  obtain ⟨n, hn⟩ := hcount r k hk
  exact absurd (h _ hn) (Nat.succ_ne_zero n)

/-- **A revision that is back has stood for the same packages** since, for a repository that is steady. -/
theorem content_eq_of_steady {before ops ops' : List RevisionOp} {db db₁ db₂ : Database} {r : Str}
    (h : Reached .empty before db) (h₁ : Reached db ops db₁) (h₂ : Reached db₁ ops' db₂)
    (hsteady : Steady r (ops ++ ops')) (heq : db.revision r = db₂.revision r) (k : Str) :
    db₁.content (r, k) = db₂.content (r, k) := by
  have hcount₁ : Counted db₁ := counted_of_reached (h.append h₁)
  have hcount₂ : Counted db₂ := counted_of_reached ((h.append h₁).append h₂)
  by_cases hdel : (ops ++ ops').any (deletes r) = false
  · rw [List.any_append, Bool.or_eq_false_iff] at hdel
    have hkept := (since_of_reached h₁ r (readded_of_not_deletes hdel.1)).1 hdel.1
    have hkept' := (since_of_reached h₂ r (readded_of_not_deletes hdel.2)).1 hdel.2
    cases hrev : db.revision r with
    | none =>
      have hnone₂ : db₂.revision r = none := by rw [← heq, hrev]
      have hnone₁ : db₁.revision r = none := by
        by_contra hsome
        obtain ⟨n, hn⟩ := Option.ne_none_iff_exists'.1 hsome
        obtain ⟨n', hn', -⟩ := hkept' n hn
        rw [hnone₂] at hn'
        cases hn'
      rw [content_none_of_revision hcount₁ (by simp [hnone₁]), content_none_of_revision hcount₂ (by simp [hnone₂])]
    | some n =>
      obtain ⟨n₁, hn₁, hle, -⟩ := hkept n hrev
      obtain ⟨n₂, hn₂, hle', hcontent⟩ := hkept' n₁ hn₁
      rw [← heq, hrev, Option.some.injEq] at hn₂
      exact (hcontent (by omega) k).symm
  · -- it was deleted, so it has no snapshot; back at its revision, it had no package from the start
    have hsnap := hsteady.resolve_left hdel
    have hzero := (since_of_reached (h₁.append h₂) r (readded_of_not_snapshots hsnap)).2
      (Bool.eq_true_of_not_eq_false hdel)
    have hnone : db.content (r, k) = none :=
      content_none_of_revision (counted_of_reached h) fun n hn => hzero n (heq ▸ hn)
    rw [content_none_of_not_snapshots (h₁.append h₂) hsnap hnone]
    rw [List.any_append, Bool.or_eq_false_iff] at hsnap
    exact content_none_of_not_snapshots h₁ hsnap.1 hnone

/-- The operations delete no repository. -/
def KeepsRepos (ops : List RevisionOp) : Prop := ∀ op ∈ ops, ∀ r, op.deletes r = false

theorem KeepsRepos.any_deletes (h : KeepsRepos ops) (r : Str) : ops.any (deletes r) = false :=
  List.any_eq_false.2 fun op hop => by simp [h op hop r]

/-- **A revision that is back is a revision that never moved**: with no repository deleted, equal revisions before and
after mean the same contents in between. -/
theorem content_eq_between {before ops ops' : List RevisionOp} {db db₁ db₂ : Database} (h : Reached .empty before db)
    (h₁ : Reached db ops db₁) (hops : KeepsRepos ops) (h₂ : Reached db₁ ops' db₂) (hops' : KeepsRepos ops')
    (heq : ∀ r, db.revision r = db₂.revision r) (pk : Str × Str) : db.content pk = db₁.content pk := by
  obtain ⟨r, k⟩ := pk
  have hsteady : Steady r (ops ++ ops') := by
    left
    rw [List.any_append, hops.any_deletes r, hops'.any_deletes r]
    rfl
  have hfirst := content_eq_of_steady h (.nil db) (h₁.append h₂) hsteady (heq r) k
  exact hfirst.trans (content_eq_of_steady h h₁ h₂ hsteady (heq r) k).symm

/-- **Equal revisions mean an equal catalog**, in every run in which no repository of the earlier map is deleted and then
given a snapshot between the two moments. -/
theorem revisions_run {before between : List RevisionOp} {db db' : Database} (h : Reached .empty before db)
    (h' : Reached db between db') (hreadded : ∀ r, db.getSnapshotRevisions.lookup r ≠ none → readded r between = false)
    (heq : ∀ r, db.getSnapshotRevisions.lookup r = db'.getSnapshotRevisions.lookup r) (pk : Str × Str) :
    db.content pk = db'.content pk := by
  simp only [Database.lookup_getSnapshotRevisions] at hreadded heq
  exact content_eq_of_revision_eq h h' hreadded heq pk

/-- A repository `r` that lists the key `k` under the path `f` with the given hash. -/
def listOne (hash : String) : RevisionOp :=
  .recordSnapshot (.listing "r" [("k", "f", hash)]) { now := [] } fun _ => []

/-- A repository that is deleted and added again with another hash has the revision it had. -/
theorem revisions_readded : ¬ ∀ (before between : List RevisionOp) (db db' : Database), Reached .empty before db →
    Reached db between db' → (∀ r, db.getSnapshotRevisions.lookup r = db'.getSnapshotRevisions.lookup r) →
    ∀ pk, db.content pk = db'.content pk := by
  intro h
  have hrows : (apply .empty (listOne "A")).getSnapshotRevisions.rows =
      (apply (apply (apply .empty (listOne "A")) (.deleteRepoRows "r".toList)) (listOne "B")).getSnapshotRevisions.rows := by
    decide
  have := h [listOne "A"] [.deleteRepoRows "r".toList, listOne "B"] _ _ (.cons rfl (.nil _))
    (.cons rfl (.cons rfl (.nil _))) (fun r => by unfold Dict.lookup Table.get; rw [hrows]) ("r".toList, "k".toList)
  revert this
  decide

/-- With nothing but a check in between, the package that the equal revisions stand for is the same. -/
theorem revisions_run_touched : (apply .empty (listOne "A")).content ("r".toList, "k".toList) =
    (apply (apply .empty (listOne "A")) (.touchLastCheck "r".toList [])).content ("r".toList, "k".toList) :=
  revisions_run (.cons rfl (.nil _))
    (.cons rfl (.nil _)) (fun _ _ => rfl) (fun r => by
      have h : (apply .empty (listOne "A")).getSnapshotRevisions.rows =
          (apply (apply .empty (listOne "A")) (.touchLastCheck "r".toList [])).getSnapshotRevisions.rows := by decide
      unfold Dict.lookup Table.get
      rw [h]) _

end RevisionOp
end RepoWatch
