import RepoWatch.NixStore
import RepoWatch.Revisions
/-!
# NixPurge — which files of a selection a purge of Nix packages sends

Closures overlap, so a purge of some packages must leave every file that a package outside the selection needs.  `purge`
computes the files it withholds while it goes through the selection; `selectAll_eq` says that the order does not matter,
and from there each file is judged by its owners alone (`mem_files`).
-/
namespace RepoWatch

open Lib

/-- What the purge backend reports for a file. -/
inductive PurgeOutcome where
  | purged
  | notCached
  | error (detail : Str)
  deriving DecidableEq

/-- The result for a package. -/
inductive NixOutcome where
  | error (detail : Str)
  | retainedShared
  | purged
  | notCached
  deriving DecidableEq

def PurgeOutcome.detail? : PurgeOutcome → Option Str
  | error detail => some detail
  | _ => none

namespace Database
variable (db : Database)

/-- `RepositoriesStore.get_packages`. -/
def getPackages (repoId : Str) : Option (List (Str × Str)) :=
  if (db.repoState.get repoId).any (fun state => decide (state.lastCheck ≠ [])) then
    some ((db.packagesOf repoId).map fun p => (p.packageKey, p.filename))
  else none

def CheckedAt (r : Str) : Prop := ∃ state, db.repoState.get r = some state ∧ state.lastCheck ≠ []

/-- A repository that lists a package has been checked. -/
def Checked : Prop := ∀ row ∈ db.repoPackages.rows, db.CheckedAt row.repoId

end Database

theorem Database.checked_recordNixArtifacts {db : Database} {repoId key : Str} {artifacts : List Artifact} :
    (db.recordNixArtifacts repoId key artifacts).Checked ↔ db.Checked := Iff.rfl

namespace RevisionOp
variable {db db' : Database} {ops : List RevisionOp} {op : RevisionOp}

/-- The operation is given the time of a clock. -/
def Clocked : RevisionOp → Prop
  | recordSnapshot _ m _ => m.now ≠ []
  | touchLastCheck _ now => now ≠ []
  | _ => True

theorem checkedAt_upsert {states : Table RepoState Str RepoState.repoId} {r : Str} {new : RepoState}
    (hnew : r = new.repoId → new.lastCheck ≠ []) (h : ∃ state, states.get r = some state ∧ state.lastCheck ≠ []) :
    ∃ state, (states.upsert new).get r = some state ∧ state.lastCheck ≠ [] := by
  rw [Table.get_upsert]
  split
  · rename_i hr
    exact ⟨new, rfl, hnew hr⟩
  · exact h

/-- A repository that lists a package after an operation is checked then, or was listed before and stays checked. -/
theorem checkedAt_apply (hop : op.Clocked) {r k : Str} (hk : (apply db op).repoPackages.get (r, k) ≠ none) :
    (apply db op).CheckedAt r ∨ db.repoPackages.get (r, k) ≠ none ∧ (db.CheckedAt r → (apply db op).CheckedAt r) := by
  cases op with
  | recordSnapshot s m uuid =>
    by_cases hr : r = s.repoId
    · refine Or.inl ⟨_, (Database.get_repoState_recordSnapshot ..).trans (if_pos hr), ?_⟩
      have hnow : (db.snapshotState s m (s.changed db) (s.catalogChanged db)).lastCheck = m.now := by
        unfold Database.snapshotState
        split <;> rfl
      rw [hnow]
      exact hop
    · rw [apply, Database.get_repoPackages_recordSnapshot, if_neg hr] at hk
      refine Or.inr ⟨hk, ?_⟩
      rintro ⟨state, hstate, hcheck⟩
      exact ⟨state, (Database.get_repoState_recordSnapshot ..).trans ((if_neg hr).trans hstate), hcheck⟩
  | recordKeyExpiry repoId expiresAt isKnown =>
    refine Or.inr ⟨hk, fun h => checkedAt_upsert (fun hr => ?_) h⟩
    obtain ⟨state, hstate, hcheck⟩ := h
    cases hst : db.repoState.get repoId with
    | none =>
      rw [hst] at hr
      rw [show r = repoId from hr, hst] at hstate
      cases hstate
    | some old =>
      rw [hst] at hr
      have hid : old.repoId = repoId := Table.key_of_get hst
      rw [show r = repoId from hr.trans hid, hst, Option.some.injEq] at hstate
      exact hstate ▸ hcheck
  | touchLastCheck repoId now =>
    have hpackages : (apply db (.touchLastCheck repoId now)).repoPackages = db.repoPackages := by
      unfold apply Database.touchLastCheck
      dsimp only
      split <;> rfl
    refine Or.inr ⟨by rw [← hpackages]; exact hk, fun h => ?_⟩
    unfold apply Database.touchLastCheck
    dsimp only
    split
    · exact h
    · exact checkedAt_upsert (fun _ => hop) h
  | deleteRepoRows repoId =>
    have hp : (apply db (.deleteRepoRows repoId)).repoPackages.get (r, k) = _ :=
      Database.get_repoPackages_deleteRepoRows db repoId r k
    by_cases hr : r = repoId
    · rw [hp, if_pos hr] at hk
      exact absurd rfl hk
    · rw [hp, if_neg hr] at hk
      refine Or.inr ⟨hk, ?_⟩
      rintro ⟨state, hstate, hcheck⟩
      exact ⟨state, (Database.get_repoState_deleteRepoRows ..).trans ((if_neg hr).trans hstate), hcheck⟩
  | purgeOrphanedRepos active repoIds =>
    obtain ⟨hs, hp⟩ := Database.get_purgeOrphanedRepos active r k repoIds db
    by_cases hr : r ∈ repoIds ∧ r ∉ active
    · exact absurd (hp.trans (if_pos hr)) hk
    · refine Or.inr ⟨by rw [← hp.trans (if_neg hr)]; exact hk, ?_⟩
      rintro ⟨state, hstate, hcheck⟩
      exact ⟨state, hs.trans ((if_neg hr).trans hstate), hcheck⟩

theorem apply_checked (h : db.Checked) (hop : op.Clocked) : (apply db op).Checked := by
  intro row hrow
  have hget : (apply db op).repoPackages.get (row.repoId, row.packageKey) = some row := Table.get_of_mem hrow
  rcases checkedAt_apply hop (by rw [hget]; simp) with hnew | ⟨hold, hkeep⟩
  · exact hnew
  · obtain ⟨old, hold⟩ := Option.ne_none_iff_exists'.1 hold
    obtain ⟨hm, hpk⟩ := Table.get_eq_some_iff.1 hold
    exact hkeep ((Prod.mk.inj hpk).1 ▸ h old hm)

/-- **Every repository with packages has been checked**, in every database that clocked operations reach. -/
theorem checked_of_reached (h : Reached .empty ops db) (hops : ∀ op ∈ ops, op.Clocked) : db.Checked := by
  refine h.history (fun ops db => (∀ op ∈ ops, op.Clocked) → db.Checked) ?_ ?_ hops
  · intro _ row hrow
    cases hrow
  · rintro ops db₁ op _ - ih rfl hops
    exact apply_checked (ih fun op' hop' => hops op' (List.mem_append_left _ hop')) (hops op (by simp))

end RevisionOp

/-- What the loop over the selection has computed for a package: the files to send, and whether some are withheld. -/
structure NixSelection where
  key : Str
  names : List Str
  retained : Bool

section Purge
variable (db : Database) (repoId : Str) (packages : Dict Str Str)

/-- The root of a package and its recorded artifacts. -/
def nixNames (key filename : Str) : List Str :=
  (filename :: (db.getNixArtifacts repoId key).map Artifact.filename).dedup

/-- The files of the catalog outside the selection. -/
def nixShared : List Str :=
  db.nixSharedFiles repoId packages.keys ++
    (((db.getPackages repoId).getD []).filter fun p => p.1 ∉ packages.keys).map Prod.snd

/-- One round of the loop: with an unknown owner, every file of the package is withheld from now on. -/
def selectPackage (unknownOwners : Bool) (st : List Str × List NixSelection) (p : Str × Str) :
    List Str × List NixSelection :=
  let names := nixNames db repoId p.1 p.2
  let shared := if unknownOwners then st.1 ++ names else st.1
  (shared, st.2 ++ [⟨p.1, names.filter (· ∉ shared), names.any (· ∈ shared)⟩])

def nixSelections : List NixSelection :=
  (packages.rows.foldl (selectPackage db repoId (db.nixHasUnknownOwners repoId packages.keys))
    (nixShared db repoId packages, [])).2

/-- The files that are handed to the backend. -/
def nixFiles : List Str := ((nixSelections db repoId packages).flatMap NixSelection.names).dedup

/-- The result of a package, given what the backend reports for the files sent; of several errors the first counts. -/
def NixSelection.outcome (results : Str → PurgeOutcome) (s : NixSelection) : NixOutcome :=
  match s.names.filterMap fun name => (results name).detail? with
  | detail :: _ => .error detail
  | [] =>
    if s.retained then .retainedShared
    else if s.names.any fun name => decide (results name = .purged) then .purged
    else .notCached

/-- `cache.nix.purge`; `results` is what the backend reports for the files it is sent. -/
def nixPurge (results : Str → PurgeOutcome) : List (Str × NixOutcome) :=
  (nixSelections db repoId packages).map fun s => (s.key, s.outcome results)

end Purge

section Selection
variable {db : Database} {repoId : Str} {packages : Dict Str Str}

/-- **The loop over the selection**: each package on its own, against the files of the catalog outside the selection, or,
with an unknown owner, against all of its files. -/
theorem selectAll_eq (unknownOwners : Bool) (shared : List Str) : ∀ (ps : List (Str × Str)) (grown : List Str)
    (done : List NixSelection), (unknownOwners = false → grown = shared) →
    (ps.foldl (selectPackage db repoId unknownOwners) (grown, done)).2 = done ++ ps.map fun p =>
      ⟨p.1, (nixNames db repoId p.1 p.2).filter fun f => !unknownOwners && decide (f ∉ shared),
        (nixNames db repoId p.1 p.2).any fun f => unknownOwners || decide (f ∈ shared)⟩
  | [], _, done, _ => by simp
  | p :: ps, grown, done, h => by
    rw [List.foldl_cons, List.map_cons, List.append_cons]
    have hstep : selectPackage db repoId unknownOwners (grown, done) p =
        ((selectPackage db repoId unknownOwners (grown, done) p).1, done ++
          [⟨p.1, (nixNames db repoId p.1 p.2).filter fun f => !unknownOwners && decide (f ∉ shared),
            (nixNames db repoId p.1 p.2).any fun f => unknownOwners || decide (f ∈ shared)⟩]) := by
      unfold selectPackage
      cases hunknown : unknownOwners with
      | false =>
        obtain rfl := h hunknown
        simp
      | true =>
        have hnone : ((nixNames db repoId p.1 p.2).filter fun f => decide (f ∉ grown ++ nixNames db repoId p.1 p.2)) = [] :=
          List.filter_eq_nil_iff.2 fun f hf => by simp [hf]
        have hany : ((nixNames db repoId p.1 p.2).any fun f => decide (f ∈ grown ++ nixNames db repoId p.1 p.2)) =
            (nixNames db repoId p.1 p.2).any fun _ => true := by
          rw [Bool.eq_iff_iff, List.any_eq_true, List.any_eq_true]
          exact exists_congr fun f => and_congr_right fun hf => by simp [hf]
        simp only [if_true, hnone, hany]
        simp
    rw [hstep]
    refine selectAll_eq unknownOwners shared ps _ _ fun hunknown => ?_
    obtain rfl := h hunknown
    unfold selectPackage
    simp [hunknown]

theorem nixSelections_eq : nixSelections db repoId packages = packages.rows.map fun p =>
    ⟨p.1, (nixNames db repoId p.1 p.2).filter fun f =>
        !db.nixHasUnknownOwners repoId packages.keys && decide (f ∉ nixShared db repoId packages),
      (nixNames db repoId p.1 p.2).any fun f =>
        db.nixHasUnknownOwners repoId packages.keys || decide (f ∈ nixShared db repoId packages)⟩ := by
  unfold nixSelections
  rw [selectAll_eq _ (nixShared db repoId packages) _ _ _ fun _ => rfl, List.nil_append]

/-! ## The owners of a file -/

/-- A current entry of the catalog outside the selection. -/
def Outside (db : Database) (repoId : Str) (packages : Dict Str Str) (p : PackageRow) : Prop :=
  p ∈ db.packagesOf repoId ∧ p.packageKey ∉ packages.keys

/-- The file is the root or a recorded artifact of an entry outside the selection. -/
def OwnedOutside (db : Database) (repoId : Str) (packages : Dict Str Str) (f : Str) : Prop :=
  ∃ p, Outside db repoId packages p ∧ (f = p.filename ∨ ∃ a ∈ db.getNixArtifacts repoId p.packageKey, a.filename = f)

/-- An entry outside the selection has no recorded artifacts. -/
def UnknownOwner (db : Database) (repoId : Str) (packages : Dict Str Str) : Prop :=
  ∃ p, Outside db repoId packages p ∧ db.getNixArtifacts repoId p.packageKey = []

/-- The file is the root or a recorded artifact of a package of the selection. -/
def OwnedBy (db : Database) (repoId key filename f : Str) : Prop :=
  f = filename ∨ ∃ a ∈ db.getNixArtifacts repoId key, a.filename = f

theorem mem_nixNames {key filename f : Str} : f ∈ nixNames db repoId key filename ↔ OwnedBy db repoId key filename f := by
  unfold nixNames OwnedBy
  rw [List.mem_dedup, List.mem_cons, List.mem_map]

theorem mem_nixSharedFiles {excluded : List Str} {f : Str} : f ∈ db.nixSharedFiles repoId excluded ↔
    ∃ p ∈ db.packagesOf repoId, p.packageKey ∉ excluded ∧ ∃ a ∈ db.getNixArtifacts repoId p.packageKey, a.filename = f := by
  unfold Database.nixSharedFiles
  simp only [List.mem_map, List.mem_filter, decide_eq_true_eq, Option.isSome_iff_exists]
  constructor
  · rintro ⟨row, ⟨hrow, rfl, ⟨p, hp⟩, hkey⟩, rfl⟩
    obtain ⟨hpm, hpk⟩ := Table.get_eq_some_iff.1 hp
    obtain ⟨hid, hpkey⟩ := Prod.mk.inj hpk
    refine ⟨p, Database.mem_packagesOf.2 ⟨hpm, hid⟩, hpkey ▸ hkey, ⟨row.filename, row.contentHash, row.size⟩, ?_, rfl⟩
    rw [Database.mem_getNixArtifacts, hpkey]
    exact hrow
  · rintro ⟨p, hp, hkey, a, ha, rfl⟩
    obtain ⟨hpm, hid⟩ := Database.mem_packagesOf.1 hp
    exact ⟨_, ⟨Database.mem_getNixArtifacts.1 ha, rfl, ⟨p, by rw [← hid]; exact Table.get_of_mem hpm⟩, hkey⟩, rfl⟩

/-- **The withheld files** are those owned outside the selection. -/
theorem mem_nixShared (hchecked : db.Checked) {f : Str} :
    f ∈ nixShared db repoId packages ↔ OwnedOutside db repoId packages f := by
  have hroots : (∃ q ∈ (db.getPackages repoId).getD [], q.1 ∉ packages.keys ∧ q.2 = f) ↔
      ∃ p, Outside db repoId packages p ∧ f = p.filename := by
    unfold Database.getPackages Outside
    constructor
    · rintro ⟨q, hq, hkey, rfl⟩
      split at hq
      · obtain ⟨p, hp, rfl⟩ := List.mem_map.1 hq
        exact ⟨p, ⟨hp, hkey⟩, rfl⟩
      · cases hq
    · rintro ⟨p, ⟨hp, hkey⟩, rfl⟩
      obtain ⟨hpm, hid⟩ := Database.mem_packagesOf.1 hp
      obtain ⟨state, hstate, hcheck⟩ := hchecked p hpm
      rw [hid] at hstate
      rw [hstate, Option.any_some, if_pos (by simpa using hcheck)]
      exact ⟨(p.packageKey, p.filename), List.mem_map_of_mem hp, hkey, rfl⟩
  unfold nixShared OwnedOutside
  rw [List.mem_append, mem_nixSharedFiles, List.mem_map]
  simp only [List.mem_filter, decide_eq_true_eq, and_assoc]
  rw [hroots]
  constructor
  · rintro (⟨p, hp, hkey, ha⟩ | ⟨p, hp, hf⟩)
    · exact ⟨p, ⟨hp, hkey⟩, Or.inr ha⟩
    · exact ⟨p, hp, Or.inl hf⟩
  · rintro ⟨p, hp, hf | ha⟩
    · exact Or.inr ⟨p, hp, hf⟩
    · exact Or.inl ⟨p, hp.1, hp.2, ha⟩

theorem nixHasUnknownOwners_iff : db.nixHasUnknownOwners repoId packages.keys = true ↔ UnknownOwner db repoId packages := by
  unfold Database.nixHasUnknownOwners UnknownOwner Outside
  simp only [List.any_eq_true, Bool.and_eq_true, decide_eq_true_eq, Bool.not_eq_true', List.any_eq_false, and_assoc]
  refine exists_congr fun p => and_congr_right fun hp => and_congr_right fun _ => ?_
  obtain ⟨-, hid⟩ := Database.mem_packagesOf.1 hp
  rw [List.eq_nil_iff_forall_not_mem]
  constructor
  · intro h a ha
    exact h _ (Database.mem_getNixArtifacts.1 ha) ⟨hid.symm, rfl⟩
  · rintro h row hrow ⟨hrid, hkey⟩
    refine h ⟨row.filename, row.contentHash, row.size⟩ (Database.mem_getNixArtifacts.2 ?_)
    rw [← hid, ← hrid, ← hkey]
    exact hrow

/-- **The files that are sent** are those of the selection that nothing outside owns, and none with an unknown owner. -/
theorem mem_nixFiles (hchecked : db.Checked) {f : Str} : f ∈ nixFiles db repoId packages ↔
    ¬ UnknownOwner db repoId packages ∧ ¬ OwnedOutside db repoId packages f ∧
      ∃ key filename, packages.lookup key = some filename ∧ OwnedBy db repoId key filename f := by
  unfold nixFiles
  rw [List.mem_dedup, List.mem_flatMap, nixSelections_eq, ← nixHasUnknownOwners_iff, ← mem_nixShared hchecked]
  constructor
  · rintro ⟨s, hs, hf⟩
    obtain ⟨p, hp, rfl⟩ := List.mem_map.1 hs
    simp only [List.mem_filter, Bool.and_eq_true, Bool.not_eq_true', decide_eq_true_eq] at hf
    exact ⟨by simp [hf.2.1], hf.2.2, p.1, p.2, Dict.lookup_eq_some_iff.2 hp, mem_nixNames.1 hf.1⟩
  · rintro ⟨hunknown, hshared, key, filename, hp, hf⟩
    refine ⟨_, List.mem_map_of_mem (Dict.lookup_eq_some_iff.1 hp), ?_⟩
    simp only [List.mem_filter, Bool.and_eq_true, Bool.not_eq_true', decide_eq_true_eq]
    exact ⟨mem_nixNames.2 hf, by simpa using hunknown, hshared⟩

theorem mem_selection (hchecked : db.Checked) {s : NixSelection} (hs : s ∈ nixSelections db repoId packages)
    {filename : Str} (hfile : packages.lookup s.key = some filename) :
    (∀ f, f ∈ s.names ↔ OwnedBy db repoId s.key filename f ∧ f ∈ nixFiles db repoId packages) ∧
    (s.retained = true ↔ ∃ f, OwnedBy db repoId s.key filename f ∧ f ∉ nixFiles db repoId packages) := by
  have hsent : ∀ f, OwnedBy db repoId s.key filename f → (f ∈ nixFiles db repoId packages ↔
      (!db.nixHasUnknownOwners repoId packages.keys && decide (f ∉ nixShared db repoId packages)) = true) := by
    intro f hf
    rw [mem_nixFiles hchecked, Bool.and_eq_true, Bool.not_eq_true', decide_eq_true_eq, mem_nixShared hchecked,
      ← nixHasUnknownOwners_iff, Bool.not_eq_true]
    exact ⟨fun h => ⟨h.1, h.2.1⟩, fun h => ⟨h.1, h.2, s.key, filename, hfile, hf⟩⟩
  rw [nixSelections_eq] at hs
  obtain ⟨p, hp, rfl⟩ := List.mem_map.1 hs
  have hp2 : packages.lookup p.1 = some p.2 := Dict.lookup_eq_some_iff.2 hp
  obtain rfl : p.2 = filename := Option.some.inj (hp2.symm.trans hfile)
  constructor
  · intro f
    rw [List.mem_filter, mem_nixNames]
    exact and_congr_right fun hf => (hsent f hf).symm
  · rw [List.any_eq_true]
    refine exists_congr fun f => ?_
    rw [mem_nixNames]
    refine and_congr_right fun hf => ?_
    rw [hsent f hf]
    cases db.nixHasUnknownOwners repoId packages.keys <;> simp

/-! ## The results -/

/-- The result of a package with the given files, when `files` are sent and the backend reports `results`. -/
structure ResultOf (owned : Str → Prop) (files : List Str) (results : Str → PurgeOutcome) (outcome : NixOutcome) :
    Prop where
  error : (∃ detail, outcome = .error detail) ↔ ∃ f, owned f ∧ f ∈ files ∧ ∃ detail, results f = .error detail
  reported : ∀ detail, outcome = .error detail → ∃ f, owned f ∧ f ∈ files ∧ results f = .error detail
  retained : outcome = .retainedShared ↔
    (¬ ∃ f, owned f ∧ f ∈ files ∧ ∃ detail, results f = .error detail) ∧ ∃ f, owned f ∧ f ∉ files
  purged : outcome = .purged ↔ (¬ ∃ f, owned f ∧ f ∈ files ∧ ∃ detail, results f = .error detail) ∧
    (¬ ∃ f, owned f ∧ f ∉ files) ∧ ∃ f, owned f ∧ f ∈ files ∧ results f = .purged
  notCached : outcome = .notCached ↔ (¬ ∃ f, owned f ∧ f ∈ files ∧ ∃ detail, results f = .error detail) ∧
    (¬ ∃ f, owned f ∧ f ∉ files) ∧ ¬ ∃ f, owned f ∧ f ∈ files ∧ results f = .purged

theorem detail?_eq_some {o : PurgeOutcome} {detail : Str} : o.detail? = some detail ↔ o = .error detail := by
  cases o <;> simp [PurgeOutcome.detail?]

theorem outcome_resultOf {s : NixSelection} {owned : Str → Prop} {files : List Str} (results : Str → PurgeOutcome)
    (hnames : ∀ f, f ∈ s.names ↔ owned f ∧ f ∈ files) (hretained : s.retained = true ↔ ∃ f, owned f ∧ f ∉ files) :
    ResultOf owned files results (s.outcome results) := by
  have herrors : ∀ detail, detail ∈ s.names.filterMap (fun name => (results name).detail?) ↔
      ∃ f, owned f ∧ f ∈ files ∧ results f = .error detail := by
    intro detail
    rw [List.mem_filterMap]
    refine exists_congr fun f => ?_
    rw [hnames, detail?_eq_some, and_assoc]
  have hpurged : (s.names.any fun name => decide (results name = .purged)) = true ↔
      ∃ f, owned f ∧ f ∈ files ∧ results f = .purged := by
    rw [List.any_eq_true]
    refine exists_congr fun f => ?_
    rw [hnames, decide_eq_true_eq, and_assoc]
  unfold NixSelection.outcome
  cases hlist : s.names.filterMap fun name => (results name).detail? with
  | cons detail rest =>
    obtain ⟨f, hf, hfiles, hres⟩ := (herrors detail).1 (by rw [hlist]; exact List.mem_cons_self)
    have herr : ∃ f, owned f ∧ f ∈ files ∧ ∃ detail, results f = .error detail := ⟨f, hf, hfiles, detail, hres⟩
    refine ⟨iff_of_true ⟨detail, rfl⟩ herr, ?_, ?_, ?_, ?_⟩
    · intro detail' he
      cases he
      exact ⟨f, hf, hfiles, hres⟩
    · exact iff_of_false (by simp) fun h => h.1 herr
    · exact iff_of_false (by simp) fun h => h.1 herr
    · exact iff_of_false (by simp) fun h => h.1 herr
  | nil =>
    have hnone : ¬ ∃ f, owned f ∧ f ∈ files ∧ ∃ detail, results f = .error detail := by
      rintro ⟨f, hf, hfiles, detail, hres⟩
      have := (herrors detail).2 ⟨f, hf, hfiles, hres⟩
      rw [hlist] at this
      cases this
    dsimp only
    split
    · rename_i hret
      have hwithheld := hretained.1 hret
      refine ⟨iff_of_false (by simp) hnone, by simp, iff_of_true rfl ⟨hnone, hwithheld⟩, ?_, ?_⟩
      · exact iff_of_false (by simp) fun h => h.2.1 hwithheld
      · exact iff_of_false (by simp) fun h => h.2.1 hwithheld
    · rename_i hret
      have hall : ¬ ∃ f, owned f ∧ f ∉ files := fun h => hret (hretained.2 h)
      split
      · rename_i hany
        refine ⟨iff_of_false (by simp) hnone, by simp, iff_of_false (by simp) fun h => hall h.2, ?_, ?_⟩
        · exact iff_of_true rfl ⟨hnone, hall, hpurged.1 hany⟩
        · exact iff_of_false (by simp) fun h => h.2.2 (hpurged.1 hany)
      · rename_i hany
        refine ⟨iff_of_false (by simp) hnone, by simp, iff_of_false (by simp) fun h => hall h.2, ?_, ?_⟩
        · exact iff_of_false (by simp) fun h => hany (hpurged.2 h.2.2)
        · exact iff_of_true rfl ⟨hnone, hall, fun h => hany (hpurged.2 h)⟩

/-- What a purge of Nix packages guarantees: nothing owned outside the selection is sent, and nothing at all with an
unknown owner; everything else of the selection is; and each package's result is that of its own files. -/
structure PurgesOwn (db : Database) (repoId : Str) (packages : Dict Str Str) : Prop where
  foreign : ∀ f ∈ nixFiles db repoId packages, ¬ OwnedOutside db repoId packages f
  unknown : UnknownOwner db repoId packages → nixFiles db repoId packages = []
  own : ∀ f ∈ nixFiles db repoId packages, ∃ key filename, packages.lookup key = some filename ∧
    OwnedBy db repoId key filename f
  sent : ¬ UnknownOwner db repoId packages → ∀ key filename, packages.lookup key = some filename →
    ∀ f, OwnedBy db repoId key filename f → ¬ OwnedOutside db repoId packages f → f ∈ nixFiles db repoId packages
  keys : ∀ results, (nixPurge db repoId packages results).map Prod.fst = packages.keys
  results : ∀ results key filename outcome, packages.lookup key = some filename →
    (key, outcome) ∈ nixPurge db repoId packages results →
    ResultOf (OwnedBy db repoId key filename) (nixFiles db repoId packages) results outcome

/-- **A purge of Nix packages sends what the selection alone owns**, and reports it package by package. -/
theorem nix_purge_owned (db : Database) (hchecked : db.Checked) (repoId : Str) (packages : Dict Str Str) :
    PurgesOwn db repoId packages where
  foreign := fun f hf => ((mem_nixFiles hchecked).1 hf).2.1
  unknown := fun h => List.eq_nil_iff_forall_not_mem.2 fun f hf => ((mem_nixFiles hchecked).1 hf).1 h
  own := fun f hf => ((mem_nixFiles hchecked).1 hf).2.2
  sent := fun hunknown key filename hfile f hf hout => (mem_nixFiles hchecked).2 ⟨hunknown, hout, key, filename, hfile, hf⟩
  keys := fun results => by
    rw [nixPurge, nixSelections_eq, List.map_map, List.map_map, Dict.keys]
    rfl
  results := by
    intro results key filename outcome hfile hmem
    obtain ⟨s, hs, heq⟩ := List.mem_map.1 hmem
    obtain ⟨rfl, rfl⟩ := Prod.mk.inj heq
    obtain ⟨hnames, hretained⟩ := mem_selection hchecked hs hfile
    exact outcome_resultOf results hnames hretained

/-- Two packages share an artifact, and a third file belongs to the first alone. -/
def sharedClosures : Database :=
  let db := (Database.empty.recordSnapshot (.listing "n" [("old", "a.narinfo", none), ("other", "b.narinfo", none)])
    { now := "t".toList } id).1
  (db.recordNixArtifacts "n".toList "old".toList [⟨"nar/own.nar".toList, none, none⟩, ⟨"nar/shared.nar".toList, none, none⟩]
    ).recordNixArtifacts "n".toList "other".toList [⟨"nar/shared.nar".toList, none, none⟩]

theorem nix_purge_owned_shared :
    PurgesOwn sharedClosures "n".toList (.ofPairs [("old".toList, "a.narinfo".toList)]) := by
  refine nix_purge_owned sharedClosures ?_ _ _
  have h : RevisionOp.Reached .empty [.recordSnapshot (.listing "n" [("old", "a.narinfo", none), ("other", "b.narinfo", none)])
      { now := "t".toList } id] _ := .cons rfl (.nil _)
  refine Database.checked_recordNixArtifacts.2 (Database.checked_recordNixArtifacts.2 ?_)
  refine RevisionOp.checked_of_reached h fun op hop => ?_
  rw [List.mem_singleton.1 hop]
  exact List.cons_ne_nil _ _

example : nixFiles sharedClosures "n".toList (.ofPairs [("old".toList, "a.narinfo".toList)]) =
    ["a.narinfo".toList, "nar/own.nar".toList] := by decide

end Selection
end RepoWatch
