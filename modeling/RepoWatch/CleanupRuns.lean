import RepoWatch.Lib.Program
import RepoWatch.Cleanup
import RepoWatch.NixStore
import RepoWatch.CacheStore
import RepoWatch.Revisions
import RepoWatch.Replacements
/-!
# CleanupRuns — plans that are carried out while the catalog is written

`make_plan` reads the database six times and `remove_copies` compares revisions twice before each purge, so writes may come
between any two of them.  The comparison sees a write that moves a revision; it does not see a revision that is back after
its repository was deleted, nor artifacts that are recorded after the second pass.  `purges_unserved_run` says that without
these no purge is sent for a key that an owner is served from.
-/
namespace RepoWatch

open Lib

/-! ## Writes -/

inductive CatalogWrite where
  | catalog (op : RevisionOp)
  | deleteCacheRows (repoId : Str)
  | recordNixArtifacts (repoId packageKey : Str) (artifacts : List Artifact)
  | finishReplacement (repoId key revision : Str) (error : Option Str)

namespace CatalogWrite

def apply (db : Database) : CatalogWrite → Database
  | catalog op => op.apply db
  | deleteCacheRows repoId => db.deleteCacheRows repoId
  | recordNixArtifacts repoId packageKey artifacts => db.recordNixArtifacts repoId packageKey artifacts
  | finishReplacement repoId key revision error => db.finishReplacement repoId key revision error

def catalogOp : CatalogWrite → Option RevisionOp
  | catalog op => some op
  | _ => none

abbrev Written (db : Database) (ws : List CatalogWrite) (db' : Database) : Prop :=
  Run (fun db w db' => db' = apply db w) db ws db'

/-- The tables of the catalog and its revisions. -/
def SameCatalog (db db' : Database) : Prop := db.repoState = db'.repoState ∧ db.repoPackages = db'.repoPackages

section Writes
variable {db db' c : Database} {ws : List CatalogWrite}

theorem SameCatalog.revision_eq (h : SameCatalog db c) (r : Str) : db.revision r = c.revision r := by
  unfold Database.revision
  rw [h.1]

theorem SameCatalog.content_eq (h : SameCatalog db c) (pk : Str × Str) : db.content pk = c.content pk := by
  unfold Database.content
  rw [h.2]

theorem SameCatalog.deleteRepoRows (h : SameCatalog db c) (r : Str) :
    SameCatalog ((db.deleteRepoRows r).deleteCacheRows r) ((c.deleteRepoRows r).deleteCacheRows r) := by
  obtain ⟨state, packages, events, pending, warmed, artifacts⟩ := db
  obtain ⟨state', packages', events', pending', warmed', artifacts'⟩ := c
  obtain ⟨rfl, rfl⟩ := h
  exact ⟨rfl, rfl⟩

theorem SameCatalog.purgeOrphanedRepos (active : List Str) : ∀ (repoIds : List Str) {db c : Database}, SameCatalog db c →
    SameCatalog (db.purgeOrphanedRepos active repoIds) (c.purgeOrphanedRepos active repoIds)
  | [], _, _, h => h
  | r :: repoIds, db, c, h => by
    unfold Database.purgeOrphanedRepos
    rw [List.foldl_cons, List.foldl_cons]
    refine SameCatalog.purgeOrphanedRepos active repoIds ?_
    split
    · exact h
    · exact h.deleteRepoRows r

/-- An operation on the catalog depends on the catalog only. -/
theorem SameCatalog.apply (h : SameCatalog db c) (op : RevisionOp) : SameCatalog (op.apply db) (op.apply c) := by
  cases op with
  | purgeOrphanedRepos active repoIds => exact h.purgeOrphanedRepos active repoIds
  | touchLastCheck repoId now =>
    obtain ⟨state, packages, events, pending, warmed, artifacts⟩ := db
    obtain ⟨state', packages', events', pending', warmed', artifacts'⟩ := c
    obtain ⟨rfl, rfl⟩ := h
    unfold RevisionOp.apply Database.touchLastCheck
    dsimp only
    split
    · exact ⟨rfl, rfl⟩
    · exact ⟨rfl, rfl⟩
  | _ =>
    obtain ⟨state, packages, events, pending, warmed, artifacts⟩ := db
    obtain ⟨state', packages', events', pending', warmed', artifacts'⟩ := c
    obtain ⟨rfl, rfl⟩ := h
    exact ⟨rfl, rfl⟩

theorem finishReplacement_sameCatalog (db : Database) (repoId key revision : Str) (error : Option Str) :
    SameCatalog (db.finishReplacement repoId key revision error) db ∧
      (db.finishReplacement repoId key revision error).nixArtifacts = db.nixArtifacts := by
  unfold Database.finishReplacement
  repeat' split
  all_goals exact ⟨⟨rfl, rfl⟩, rfl⟩

/-- **The writes of a run, as operations on the catalog.** -/
theorem reached_of_written (h : Written db ws db') (hc : SameCatalog db c) :
    ∃ c', RevisionOp.Reached c (ws.filterMap catalogOp) c' ∧ SameCatalog db' c' := by
  refine h.history (fun ws db' => ∃ c', RevisionOp.Reached c (ws.filterMap catalogOp) c' ∧ SameCatalog db' c')
    ⟨c, .nil c, hc⟩ ?_
  rintro ws db₁ w _ - ⟨c₁, hrun, hsame⟩ rfl
  rw [List.filterMap_append]
  cases w with
  | catalog op => exact ⟨op.apply c₁, .snoc hrun rfl, hsame.apply op⟩
  | deleteCacheRows repoId => exact ⟨c₁, (List.append_nil _).symm ▸ hrun, hsame⟩
  | recordNixArtifacts repoId packageKey artifacts => exact ⟨c₁, (List.append_nil _).symm ▸ hrun, hsame⟩
  | finishReplacement repoId key revision error =>
    obtain ⟨hfinish, -⟩ := finishReplacement_sameCatalog db₁ repoId key revision error
    exact ⟨c₁, (List.append_nil _).symm ▸ hrun, hfinish.1.trans hsame.1, hfinish.2.trans hsame.2⟩

/-- A repository whose revision is back, in a run of writes that is steady for it. -/
theorem content_eq_of_written {before ws ws' : List CatalogWrite} {db db₁ db₂ : Database} {r : Str}
    (h : Written .empty before db) (h₁ : Written db ws db₁) (h₂ : Written db₁ ws' db₂)
    (hsteady : RevisionOp.Steady r ((ws ++ ws').filterMap catalogOp)) (heq : db.revision r = db₂.revision r) (k : Str) :
    db₁.content (r, k) = db₂.content (r, k) := by
  obtain ⟨c, hc, hsame⟩ := reached_of_written h ⟨rfl, rfl⟩
  obtain ⟨c₁, hc₁, hsame₁⟩ := reached_of_written h₁ hsame
  obtain ⟨c₂, hc₂, hsame₂⟩ := reached_of_written h₂ hsame₁
  rw [List.filterMap_append] at hsteady
  rw [hsame.revision_eq, hsame₂.revision_eq] at heq
  rw [hsame₁.content_eq, hsame₂.content_eq]
  exact RevisionOp.content_eq_of_steady hc hc₁ hc₂ hsteady heq k

theorem queueReplacements_nixArtifacts (s : RepoSnapshot) (uuid : Str → Str) : ∀ (keys : List Str) (db : Database),
    (keys.foldl (Database.queueReplacement s uuid) db).nixArtifacts = db.nixArtifacts
  | [], _ => rfl
  | key :: keys, db => by
    rw [List.foldl_cons, queueReplacements_nixArtifacts s uuid keys]
    unfold Database.queueReplacement
    split
    · rfl
    · rfl

theorem purgeOrphanedRepos_nixArtifacts (active : List Str) {a : NixArtifactRow} : ∀ (repoIds : List Str) {db : Database},
    a ∈ (db.purgeOrphanedRepos active repoIds).nixArtifacts.rows → a ∈ db.nixArtifacts.rows
  | [], _, h => h
  | r :: repoIds, db, h => by
    unfold Database.purgeOrphanedRepos at h
    rw [List.foldl_cons] at h
    have hrest := purgeOrphanedRepos_nixArtifacts active repoIds h
    split at hrest
    · exact hrest
    · exact (List.mem_filter.1 hrest).1

/-- An operation on the catalog records no artifact. -/
theorem mem_nixArtifacts_apply {op : RevisionOp} {a : NixArtifactRow} (h : a ∈ (op.apply db).nixArtifacts.rows) :
    a ∈ db.nixArtifacts.rows := by
  cases op with
  | recordSnapshot s m uuid =>
    have hsame : (RevisionOp.apply db (.recordSnapshot s m uuid)).nixArtifacts = db.nixArtifacts :=
      queueReplacements_nixArtifacts s uuid _ db
    rwa [hsame] at h
  | recordKeyExpiry repoId expiresAt isKnown => exact h
  | touchLastCheck repoId now =>
    unfold RevisionOp.apply Database.touchLastCheck at h
    dsimp only at h
    split at h
    · exact h
    · exact h
  | deleteRepoRows repoId => exact h
  | purgeOrphanedRepos active repoIds => exact purgeOrphanedRepos_nixArtifacts active repoIds h

/-- **Where an artifact comes from**: it was there, or one of the writes has recorded it. -/
theorem nixArtifacts_of_written (h : Written db ws db') {a : NixArtifactRow} (ha : a ∈ db'.nixArtifacts.rows) :
    (db.nixArtifacts.get a.pk).isSome ∨
      ∃ artifacts, .recordNixArtifacts a.repoId a.packageKey artifacts ∈ ws ∧ ∃ x ∈ artifacts, x.filename = a.filename := by
  refine h.history (fun ws db' => ∀ a ∈ db'.nixArtifacts.rows, (db.nixArtifacts.get a.pk).isSome ∨
    ∃ artifacts, .recordNixArtifacts a.repoId a.packageKey artifacts ∈ ws ∧ ∃ x ∈ artifacts, x.filename = a.filename)
    (fun a ha => .inl (by rw [Table.get_of_mem ha]; rfl)) ?_ a ha
  rintro ws db₁ w _ - ih rfl a ha
  have hkeep : a ∈ db₁.nixArtifacts.rows → (db.nixArtifacts.get a.pk).isSome ∨ ∃ artifacts,
      .recordNixArtifacts a.repoId a.packageKey artifacts ∈ ws ++ [w] ∧ ∃ x ∈ artifacts, x.filename = a.filename := by
    intro ha
    refine (ih a ha).imp_right ?_
    rintro ⟨artifacts, hmem, hx⟩
    exact ⟨artifacts, List.mem_append_left _ hmem, hx⟩
  cases w with
  | catalog op => exact hkeep (mem_nixArtifacts_apply ha)
  | deleteCacheRows repoId => exact hkeep (List.mem_filter.1 ha).1
  | finishReplacement repoId key revision error =>
    have hsame := (finishReplacement_sameCatalog db₁ repoId key revision error).2
    exact hkeep (hsame ▸ ha)
  | recordNixArtifacts repoId packageKey artifacts =>
    rw [Table.mem_rows_iff] at ha
    have hget := Table.get_upsertAll a.pk
      (artifacts.map fun x => (⟨repoId, packageKey, x.filename, x.contentHash, x.size⟩ : NixArtifactRow)) db₁.nixArtifacts
    rw [show (apply db₁ (.recordNixArtifacts repoId packageKey artifacts)).nixArtifacts.get a.pk = _ from hget] at ha
    rcases Option.or_eq_some_iff.1 ha with ha | ⟨-, ha⟩
    · obtain ⟨x, hx, rfl⟩ := List.mem_map.1 (List.mem_reverse.1 (List.mem_of_find?_eq_some ha))
      exact .inr ⟨artifacts, by simp, x, hx, rfl⟩
    · exact hkeep (Table.mem_of_get ha)

end Writes
end CatalogWrite

/-! ## The program -/

/-- The reads of `make_plan` in order, and the one of `check_current`. -/
inductive Moment where
  | revisions | duplicates | owners | firstPass | secondPass | again | check
  deriving DecidableEq

inductive CleanupRequest where
  | read (moment : Moment)
  | loadConfig
  | clock
  | probe (key : Str)
  | purge (key : Str)

structure ProbeResult where
  found : Bool
  size : Option Nat
  generation : Str

/-- A read sees a database; the configuration file may be invalid; the clock says whether the time budget is reached; a
probe and a purge may raise. -/
abbrev CleanupRequest.Answer : CleanupRequest → Type
  | .read _ => Database
  | .loadConfig => Option Config
  | .clock => Bool
  | .probe _ => Except Str ProbeResult
  | .purge _ => Except Str Str

abbrev CleanupProgram := Program CleanupRequest CleanupRequest.Answer
abbrev CleanupLog := List (Σ r : CleanupRequest, r.Answer)

/-- What `finish` of `remove_copies` returns. -/
structure CleanupReport where
  results : Dict Str Str := .empty
  observedRemovedBytes : Nat := 0
  stopped : Option Str := none
  examined : Nat := 0
  sourceMissing : Nat := 0
  canonicalMissing : Nat := 0
  eligible : Nat := 0
  purged : Nat := 0
  absentKeys : List Str := []

def CleanupReport.result (report : CleanupReport) (key outcome : Str) : CleanupReport :=
  { report with results := report.results.set key outcome }

/-- The result of a request that raised. -/
def CleanupReport.raise (report : CleanupReport) (key detail : Str) : CleanupReport :=
  report.result key ("error (".toList ++ detail ++ [')'])

/-- The counts of a pair that was inspected. -/
def CleanupReport.inspect (report : CleanupReport) (key : Str) (source canonical : ProbeResult) : CleanupReport :=
  let report := { report with examined := report.examined + 1 }
  if !source.found then
    { report with
      absentKeys := report.absentKeys ++ [key]
      sourceMissing := report.sourceMissing + 1 }
  else if !canonical.found then { report with canonicalMissing := report.canonicalMissing + 1 }
  else report

/-- The counts of a purge. -/
def CleanupReport.settle (report : CleanupReport) (key outcome : Str) (size : Nat) : CleanupReport :=
  let report := report.result key outcome
  let report := if outcome = "purged".toList then
      { report with
        observedRemovedBytes := report.observedRemovedBytes + size
        purged := report.purged + 1 }
    else report
  if isConfirmed outcome then { report with absentKeys := report.absentKeys ++ [key] } else report

section Cleanup
variable (lower : Str → Str) (identity : RepoConfig → Str)
  (dedupGeneration : Config → List (Str × Str) → Except Error Str) (config : Config) (args : CleanupArgs) (hasPath : Bool)

/-- `check_current`; without a path the configuration is the plan's. -/
def checkCurrent (plan : CleanupPlan) (stop : Str → CleanupProgram) (next : CleanupProgram) : CleanupProgram :=
  let changed := "Configuration or repository catalogs changed; retry the cleanup.".toList
  let compare : CleanupProgram := .request (.read .check) fun db : Database =>
    if plan.revisions.eqv db.getSnapshotRevisions then next else stop changed
  if hasPath then
    .request .loadConfig fun current : Option Config =>
      match current with
      | none => stop "Configuration is invalid; cleanup stopped.".toList
      | some current => if current ≠ plan.config then stop changed else compare
  else compare

/-- `inspect_pair`. -/
def inspectPair (plan : CleanupPlan) (row : PlanRow) (stop raised : Str → CleanupProgram)
    (next : ProbeResult → ProbeResult → CleanupProgram) : CleanupProgram :=
  .request (.probe row.key) fun source : Except Str ProbeResult =>
    match source with
    | .error detail => raised detail
    | .ok source => .request (.probe row.canonicalKey) fun canonical : Except Str ProbeResult =>
        match canonical with
        | .error detail => raised detail
        | .ok canonical =>
          if source.generation ≠ plan.generation ∨ canonical.generation ≠ plan.generation then
            stop "nginx has not applied this dedup generation; retry after reconciliation.".toList
          else next source canonical

/-- A round of `remove_copies` for a candidate, from its probes on. -/
def purgeCopy (plan : CleanupPlan) (key : Str) (finish next : CleanupReport → CleanupProgram) (report : CleanupReport)
    (source canonical : ProbeResult) : CleanupProgram :=
  let stop := fun (report : CleanupReport) (reason : Str) => finish { report with stopped := some reason }
  let report := report.inspect key source canonical
  checkCurrent hasPath plan (stop report) <|
    if !(source.found && canonical.found) then next (report.result key "skipped".toList)
    else
      let report := { report with eligible := report.eligible + 1 }
      .request (.purge key) fun outcome : Except Str Str =>
        match outcome with
        | .error detail => next (report.raise key detail)
        | .ok outcome =>
          let report := report.settle key outcome (source.size.getD 0)
          if outcome = "error (HTTP 409)".toList then stop report "nginx generation changed".toList else next report

/-- One round of `remove_copies` for a candidate. -/
def removeCopy (plan : CleanupPlan) (row : PlanRow) (key : Str) (finish next : CleanupReport → CleanupProgram)
    (report : CleanupReport) : CleanupProgram :=
  let stop := fun reason : Str => finish { report with stopped := some reason }
  checkCurrent hasPath plan stop <|
    inspectPair plan row stop (fun detail => next (report.raise key detail)) (purgeCopy hasPath plan key finish next report)

/-- `remove_copies`. -/
def removeCopies (plan : CleanupPlan) (finish : CleanupReport → CleanupProgram) :
    List Str → CleanupReport → CleanupProgram
  | [], report => finish report
  | key :: keys, report => .request .clock fun expired : Bool =>
      if expired then finish { report with stopped := some "time budget reached".toList }
      else
        match plan.candidates.lookup key with
        | none => removeCopies plan finish keys (report.result key "skipped".toList)
        | some row => removeCopy hasPath plan row key finish (removeCopies plan finish keys) report

/-- `make_plan`, and then `remove_copies` of that plan, once for each list of keys. -/
def cleanup (batches : List (List Str)) : CleanupProgram :=
  .request (.read .revisions) fun revisions : Database => .request (.read .duplicates) fun duplicates : Database =>
  .request (.read .owners) fun owners : Database => .request (.read .firstPass) fun first : Database =>
  .request (.read .secondPass) fun second : Database => .request (.read .again) fun again : Database =>
    match makePlanFrom lower identity dedupGeneration config ⟨revisions, duplicates, owners, first, second, again⟩ args with
    | .error _ => .done
    | .ok plan => batches.foldr (fun keys rest => removeCopies hasPath plan (fun _ => rest) keys {}) .done

/-! ## What a purge rests on -/

/-- The answers that the reads of a plan have got. -/
def PlanReads.log (reads : PlanReads) : CleanupLog :=
  [⟨.read .revisions, reads.revisions⟩, ⟨.read .duplicates, reads.duplicates⟩, ⟨.read .owners, reads.owners⟩,
    ⟨.read .firstPass, reads.first⟩, ⟨.read .secondPass, reads.second⟩, ⟨.read .again, reads.again⟩]

/-- The configuration that a check compares before it reads the revisions. -/
def loadLog : CleanupLog := if hasPath then [⟨.loadConfig, some config⟩] else []

/-- A key is purged when it is a candidate of the plan and the last check has shown the plan's configuration and revisions. -/
def PurgeAllowed (log : CleanupLog) : CleanupRequest → Prop
  | .purge k => ∃ reads plan, ∃ row : PlanRow, ∃ others, ∃ db : Database,
      log = reads.log ++ others ++ (loadLog config hasPath ++ [⟨.read .check, db⟩]) ∧
      makePlanFrom lower identity dedupGeneration config reads args = .ok plan ∧
      plan.candidates.lookup k = some row ∧ plan.revisions.eqv db.getSnapshotRevisions = true
  | _ => True

section Safety
variable {lower identity dedupGeneration config args hasPath} {reads : PlanReads} {plan : CleanupPlan}

/-- The program is safe whatever else is answered after the reads. -/
def SafeAfterReads (lower : Str → Str) (identity : RepoConfig → Str)
    (dedupGeneration : Config → List (Str × Str) → Except Error Str) (config : Config) (args : CleanupArgs)
    (hasPath : Bool) (reads : PlanReads) (p : CleanupProgram) : Prop :=
  ∀ others, Program.Safe (PurgeAllowed lower identity dedupGeneration config args hasPath) (reads.log ++ others) p

theorem checkCurrent_safe {stop : Str → CleanupProgram} {next : CleanupProgram} (hconfig : plan.config = config)
    (hstop : ∀ reason, SafeAfterReads lower identity dedupGeneration config args hasPath reads (stop reason))
    (hnext : ∀ others (db : Database), plan.revisions.eqv db.getSnapshotRevisions = true →
      Program.Safe (PurgeAllowed lower identity dedupGeneration config args hasPath)
        (reads.log ++ others ++ (loadLog config hasPath ++ [⟨.read .check, db⟩])) next) :
    SafeAfterReads lower identity dedupGeneration config args hasPath reads (checkCurrent hasPath plan stop next) := by
  intro others
  have hcompare : Program.Safe (PurgeAllowed lower identity dedupGeneration config args hasPath)
      (reads.log ++ others ++ loadLog config hasPath)
      (.request (.read .check) fun db : Database => if plan.revisions.eqv db.getSnapshotRevisions then next
        else stop "Configuration or repository catalogs changed; retry the cleanup.".toList) := by
    refine ⟨trivial, fun db => ?_⟩
    dsimp only
    split
    · rename_i heqv
      rw [List.append_assoc]
      exact hnext others db heqv
    · rw [List.append_assoc, List.append_assoc]
      exact hstop _ _
  unfold checkCurrent
  dsimp only
  cases hasPath with
  | false => exact (List.append_nil (reads.log ++ others)) ▸ hcompare
  | true =>
    refine ⟨trivial, fun current => ?_⟩
    cases current with
    | none =>
      rw [List.append_assoc]
      exact hstop _ _
    | some current =>
      dsimp only
      split
      · rw [List.append_assoc]
        exact hstop _ _
      · rename_i hsame
        rw [not_not] at hsame
        rw [hsame, hconfig]
        exact hcompare

theorem inspectPair_safe {row : PlanRow} {stop raised : Str → CleanupProgram}
    {next : ProbeResult → ProbeResult → CleanupProgram}
    (hstop : ∀ reason, SafeAfterReads lower identity dedupGeneration config args hasPath reads (stop reason))
    (hraised : ∀ detail, SafeAfterReads lower identity dedupGeneration config args hasPath reads (raised detail))
    (hnext : ∀ source canonical,
      SafeAfterReads lower identity dedupGeneration config args hasPath reads (next source canonical)) :
    SafeAfterReads lower identity dedupGeneration config args hasPath reads (inspectPair plan row stop raised next) := by
  refine fun others => ⟨trivial, fun source => ?_⟩
  rw [List.append_assoc]
  cases source with
  | error detail => exact hraised _ _
  | ok source =>
    refine ⟨trivial, fun canonical => ?_⟩
    rw [List.append_assoc]
    cases canonical with
    | error detail => exact hraised _ _
    | ok canonical =>
      dsimp only
      split
      · exact hstop _ _
      · exact hnext _ _ _

theorem purgeCopy_safe {row : PlanRow} {key : Str} {finish next : CleanupReport → CleanupProgram}
    (hplan : makePlanFrom lower identity dedupGeneration config reads args = .ok plan)
    (hrow : plan.candidates.lookup key = some row)
    (hfinish : ∀ report, SafeAfterReads lower identity dedupGeneration config args hasPath reads (finish report))
    (hnext : ∀ report, SafeAfterReads lower identity dedupGeneration config args hasPath reads (next report))
    (report : CleanupReport) (source canonical : ProbeResult) :
    SafeAfterReads lower identity dedupGeneration config args hasPath reads
      (purgeCopy hasPath plan key finish next report source canonical) := by
  unfold purgeCopy
  refine checkCurrent_safe (makePlanFrom_ok hplan).1 (fun _ => hfinish _) fun others db heqv => ?_
  split
  · rw [List.append_assoc]
    exact hnext _ _
  · refine ⟨⟨reads, plan, row, others, db, rfl, hplan, hrow, heqv⟩, fun outcome => ?_⟩
    rw [List.append_assoc, List.append_assoc]
    cases outcome with
    | error detail => exact hnext _ _
    | ok outcome =>
      dsimp only
      split
      · exact hfinish _ _
      · exact hnext _ _

theorem removeCopy_safe {row : PlanRow} {key : Str} {finish next : CleanupReport → CleanupProgram}
    (hplan : makePlanFrom lower identity dedupGeneration config reads args = .ok plan)
    (hrow : plan.candidates.lookup key = some row)
    (hfinish : ∀ report, SafeAfterReads lower identity dedupGeneration config args hasPath reads (finish report))
    (hnext : ∀ report, SafeAfterReads lower identity dedupGeneration config args hasPath reads (next report))
    (report : CleanupReport) :
    SafeAfterReads lower identity dedupGeneration config args hasPath reads
      (removeCopy hasPath plan row key finish next report) := by
  unfold removeCopy
  refine checkCurrent_safe (makePlanFrom_ok hplan).1 (fun _ => hfinish _) fun others db _ => ?_
  rw [List.append_assoc]
  exact inspectPair_safe (fun _ => hfinish _) (fun _ => hnext _) (purgeCopy_safe hplan hrow hfinish hnext report) _

theorem removeCopies_safe {finish : CleanupReport → CleanupProgram}
    (hplan : makePlanFrom lower identity dedupGeneration config reads args = .ok plan)
    (hfinish : ∀ report, SafeAfterReads lower identity dedupGeneration config args hasPath reads (finish report)) :
    ∀ (keys : List Str) (report : CleanupReport),
      SafeAfterReads lower identity dedupGeneration config args hasPath reads (removeCopies hasPath plan finish keys report)
  | [], report => hfinish report
  | key :: keys, report => by
    refine fun others => ⟨trivial, fun expired => ?_⟩
    rw [List.append_assoc]
    cases expired with
    | true => exact hfinish _ _
    | false =>
      dsimp only
      rw [if_neg Bool.false_ne_true]
      split
      · exact removeCopies_safe hplan hfinish keys _ _
      · rename_i row hrow
        exact removeCopy_safe hplan hrow hfinish (removeCopies_safe hplan hfinish keys) report _

/-- **A cleanup purges by its plan**: whatever it is answered, each purge is of a candidate, right after an answer with the
plan's revisions. -/
theorem cleanup_safe (batches : List (List Str)) :
    Program.Safe (PurgeAllowed lower identity dedupGeneration config args hasPath) []
      (cleanup lower identity dedupGeneration config args hasPath batches) := by
  refine ⟨trivial, fun revisions => ⟨trivial, fun duplicates => ⟨trivial, fun owners => ⟨trivial, fun first =>
    ⟨trivial, fun second => ⟨trivial, fun again => ?_⟩⟩⟩⟩⟩⟩
  let reads : PlanReads := ⟨revisions, duplicates, owners, first, second, again⟩
  have hbatches : ∀ plan, makePlanFrom lower identity dedupGeneration config reads args = .ok plan →
      ∀ batches : List (List Str), SafeAfterReads lower identity dedupGeneration config args hasPath reads
        (batches.foldr (fun keys rest => removeCopies hasPath plan (fun _ => rest) keys {}) .done) := by
    intro plan hplan batches
    induction batches with
    | nil => exact fun _ => trivial
    | cons keys batches ih => exact removeCopies_safe hplan (fun _ => ih) keys {}
  dsimp only
  split
  · trivial
  · rename_i plan hplan
    exact hbatches plan hplan batches []

end Safety
end Cleanup

/-! ## Runs -/

/-- The database, and the cleanup that is carried out on it. -/
structure CleanupSystem where
  db : Database
  program : CleanupProgram

/-- A write of the rest of the program, or an answer to the cleanup. -/
inductive CleanupEvent where
  | write (w : CatalogWrite)
  | answer (e : Σ r : CleanupRequest, r.Answer)

def CleanupEvent.written : CleanupEvent → Option CatalogWrite
  | write w => some w
  | answer _ => none

def CleanupEvent.answered : CleanupEvent → Option (Σ r : CleanupRequest, r.Answer)
  | write _ => none
  | answer e => some e

def writes (events : List CleanupEvent) : List CatalogWrite := events.filterMap CleanupEvent.written

def answers (events : List CleanupEvent) : CleanupLog := events.filterMap CleanupEvent.answered

section
variable (events events' : List CleanupEvent)

@[simp] theorem writes_nil : writes [] = [] := rfl

@[simp] theorem writes_append : writes (events ++ events') = writes events ++ writes events' := List.filterMap_append

@[simp] theorem writes_cons_write (w : CatalogWrite) : writes (.write w :: events) = w :: writes events := rfl

@[simp] theorem writes_cons_answer (e : Σ r : CleanupRequest, r.Answer) : writes (.answer e :: events) = writes events :=
  rfl

@[simp] theorem writes_map_write : ∀ ws : List CatalogWrite, writes (ws.map .write) = ws
  | [] => rfl
  | w :: ws => congrArg (w :: ·) (writes_map_write ws)

@[simp] theorem answers_append : answers (events ++ events') = answers events ++ answers events' := List.filterMap_append

end

/-- A read sees the database of its moment; whatever else is asked may be answered in any way. -/
def Sees (db : Database) : (r : CleanupRequest) → r.Answer → Prop
  | .read _, seen => seen = db
  | _, _ => True

inductive CleanupSystem.Step : CleanupSystem → CleanupEvent → CleanupSystem → Prop
  | write (db : Database) (p : CleanupProgram) (w : CatalogWrite) : Step ⟨db, p⟩ (.write w) ⟨w.apply db, p⟩
  | answer {db : Database} {r : CleanupRequest} {next : r.Answer → CleanupProgram} {a : r.Answer} (h : Sees db r a) :
      Step ⟨db, .request r next⟩ (.answer ⟨r, a⟩) ⟨db, next a⟩

namespace CleanupSystem
variable {s s' : CleanupSystem} {events : List CleanupEvent}

theorem written_of_run (h : Run Step s events s') : CatalogWrite.Written s.db (writes events) s'.db := by
  refine h.history (fun events s' => CatalogWrite.Written s.db (writes events) s'.db) (.nil _) ?_
  intro events s₁ e s₂ _ ih hstep
  rw [writes_append]
  cases hstep with
  | write db p w => exact .snoc ih rfl
  | answer hsees => exact (List.append_nil (writes events)).symm ▸ ih

/-- A program that was safe is safe after the answers of a run. -/
theorem safe_of_run {P : CleanupLog → CleanupRequest → Prop} (h : Run Step s events s') (hsafe : s.program.Safe P []) :
    s'.program.Safe P (answers events) := by
  refine h.history (fun events s' => s'.program.Safe P (answers events)) hsafe ?_
  intro events s₁ e s₂ _ ih hstep
  rw [answers_append]
  cases hstep with
  | write db p w => exact (List.append_nil (answers events)).symm ▸ ih
  | answer hsees => exact Program.Safe.answer ih _

/-- A run is cut at any of its answers. -/
theorem cut_at_answer (log : CleanupLog) {log' : CleanupLog} {r : CleanupRequest} {a : r.Answer} (h : Run Step s events s')
    (hlog : answers events = log ++ ⟨r, a⟩ :: log') : ∃ pre post s₁ s₂, events = pre ++ .answer ⟨r, a⟩ :: post ∧
      answers pre = log ∧ answers post = log' ∧ Run Step s pre s₁ ∧ Sees s₁.db r a ∧ s₂.db = s₁.db ∧
      Run Step s₂ post s' := by
  obtain ⟨pre, rest, rfl, hpre, hrest⟩ := List.filterMap_eq_append_iff.1 hlog
  obtain ⟨silent, e, post, rfl, hsilent, he, hpost⟩ := List.filterMap_eq_cons_iff.1 hrest
  cases e with
  | write w => cases he
  | answer e =>
    cases he
    rw [← List.append_assoc] at h ⊢
    obtain ⟨s₁, s₂, h₁, hstep, h₂⟩ := h.step_of_mem
    refine ⟨pre ++ silent, post, s₁, s₂, rfl, ?_, hpost, h₁, ?_⟩
    · rw [answers_append, show answers pre = log from hpre,
        show answers silent = [] from List.filterMap_eq_nil_iff.2 hsilent, List.append_nil]
    · cases hstep with
      | answer hsees => exact ⟨hsees, rfl, h₂⟩

/-- Events without an answer are writes. -/
theorem eq_writes (h : answers events = []) : ∃ ws : List CatalogWrite, events = ws.map .write := by
  refine ⟨writes events, ?_⟩
  induction events with
  | nil => rfl
  | cons e events ih =>
    cases e with
    | answer e => cases h
    | write w => exact congrArg (CleanupEvent.write w :: ·) (ih h)

end CleanupSystem

/-! ## What no purge may miss -/

/-- No repository is both deleted and given a snapshot after the first read of the plan. -/
def KeepsRevisions (events : List CleanupEvent) : Prop :=
  ∀ pre seen post, events = pre ++ .answer ⟨.read .revisions, seen⟩ :: post →
    ∀ r, RevisionOp.Steady r ((writes post).filterMap CatalogWrite.catalogOp)

/-- The key under which a Nix repository of the configuration serves an artifact. -/
def ServesArtifact (config : Config) (repoId filename key : Str) : Prop :=
  ∃ repo ∈ config.repos, repo.id = repoId ∧ repo.type = .nix ∧ ∃ builder keyFor, CacheKeyBuilder.new config = .ok builder ∧
    builder.forRepo repo = .ok keyFor ∧ keyFor.key filename = key

/-- After the second pass, no artifact that is served from `key` is recorded for a package that `db` lists. -/
def KeepsArtifacts (config : Config) (db : Database) (key : Str) (events : List CleanupEvent) : Prop :=
  ∀ pre seen post, events = pre ++ .answer ⟨.read .secondPass, seen⟩ :: post →
    ∀ repoId packageKey artifacts, .recordNixArtifacts repoId packageKey artifacts ∈ writes post →
      (db.repoPackages.get (repoId, packageKey)).isSome → ∀ x ∈ artifacts, ¬ServesArtifact config repoId x.filename key

/-- What `load_config` has given last; without a path the configuration is the plan's. -/
def currentConfig (hasPath : Bool) (config : Config) (log : CleanupLog) : Option Config :=
  if hasPath then (log.getLast?.bind fun e => match e with | ⟨.loadConfig, current⟩ => current | _ => none) else some config

section Served
variable {lower : Str → Str} {identity : RepoConfig → Str} {dedupGeneration : Config → List (Str × Str) → Except Error Str}
  {config : Config} {args : CleanupArgs} {hasPath : Bool} {s s' : CleanupSystem} {events : List CleanupEvent}

theorem currentConfig_loadLog (log : CleanupLog) :
    currentConfig hasPath config (log ++ loadLog config hasPath) = some config := by
  cases hasPath with
  | false => rfl
  | true => simp [currentConfig, loadLog]

/-- The evidence is heard of every database when it is heard of one. -/
theorem evidence_ok {db : Database} (db' : Database) {builder : CacheKeyBuilder} {redirects : Dict Str Str}
    {ev : List CleanupEvidence} (h : evidence lower identity config db builder redirects = .ok ev) :
    ∃ ev', evidence lower identity config db' builder redirects = .ok ev' := by
  unfold evidence at h ⊢
  obtain ⟨bound, hbound, -⟩ := bind_eq_ok.1 h
  rw [hbound]
  exact ⟨_, rfl⟩

theorem exists_file_of_content {db db' : Database} (h : ∀ pk, db.content pk = db'.content pk) {p : PackageRow}
    {repoId : Str} (hp : p ∈ db'.packagesOf repoId) : ∃ p' ∈ db.packagesOf repoId, p'.filename = p.filename := by
  obtain ⟨hrow, rfl⟩ := Database.mem_packagesOf.1 hp
  have hcontent := h p.pk
  unfold Database.content at hcontent
  rw [Table.get_of_mem hrow, Option.map_some] at hcontent
  obtain ⟨p', hget, hsame⟩ := Option.map_eq_some_iff.1 hcontent
  obtain ⟨hmem, hpk⟩ := Table.get_eq_some_iff.1 hget
  exact ⟨p', Database.mem_packagesOf.2 ⟨hmem, congrArg Prod.fst hpk⟩, congrArg Prod.fst hsame⟩

/-- **A read since the first one has shown the catalog of now**, when the revisions are those of the first read and no
repository was deleted and given a snapshot since. -/
theorem content_of_shown {before : List CatalogWrite} (h₀ : CatalogWrite.Written .empty before s.db)
    (h : Run CleanupSystem.Step s events s') (heq : ∀ r, s.db.revision r = s'.db.revision r)
    (hsteady : ∀ r, RevisionOp.Steady r ((writes events).filterMap CatalogWrite.catalogOp)) {moment : Moment}
    {seen : Database} {log log' : CleanupLog} (hlog : answers events = log ++ ⟨.read moment, seen⟩ :: log')
    (pk : Str × Str) : seen.content pk = s'.db.content pk := by
  obtain ⟨pre, post, s₁, s₂, rfl, -, -, h₁, hsees, hdb, h₂⟩ := CleanupSystem.cut_at_answer _ h hlog
  obtain rfl : seen = s₁.db := hsees
  have hafter := CleanupSystem.written_of_run h₂
  rw [hdb] at hafter
  refine CatalogWrite.content_eq_of_written h₀ (CleanupSystem.written_of_run h₁) hafter ?_ (heq pk.1) pk.2
  rw [writes_append, writes_cons_answer] at hsteady
  exact hsteady pk.1

/-- The artifacts of now that are served from the key were there at the second pass. -/
theorem artifact_of_secondPass {db : Database} {key : Str} (h : Run CleanupSystem.Step s events s') (hdb : s.db = db)
    (hkeeps : ∀ repoId packageKey artifacts, .recordNixArtifacts repoId packageKey artifacts ∈ writes events →
      (s'.db.repoPackages.get (repoId, packageKey)).isSome → ∀ x ∈ artifacts, ¬ServesArtifact config repoId x.filename key)
    {a : NixArtifactRow} (ha : a ∈ s'.db.nixArtifacts.rows)
    (hlisted : (s'.db.repoPackages.get (a.repoId, a.packageKey)).isSome)
    (hserves : ServesArtifact config a.repoId a.filename key) : ∃ a' ∈ db.nixArtifacts.rows, a'.pk = a.pk := by
  subst hdb
  rcases CatalogWrite.nixArtifacts_of_written (CleanupSystem.written_of_run h) ha with hthere | ⟨artifacts, hw, x, hx, hfile⟩
  · obtain ⟨a', hget⟩ := Option.isSome_iff_exists.1 hthere
    obtain ⟨hmem, hpk⟩ := Table.get_eq_some_iff.1 hget
    exact ⟨a', hmem, hpk⟩
  · exact absurd (hfile ▸ hserves) (hkeeps _ _ _ hw hlisted x hx)

/-- A candidate of the plan is served to no one, when the catalog and the artifacts are those that the plan has read. -/
theorem unserved_of_plan {reads : PlanReads} {plan : CleanupPlan} {k : Str} {row : PlanRow} {db : Database}
    (hplan : makePlanFrom lower identity dedupGeneration config reads args = .ok plan)
    (hrow : plan.candidates.lookup k = some row) (hduplicates : ∀ pk, reads.duplicates.content pk = db.content pk)
    (howners : ∀ pk, reads.owners.content pk = db.content pk) (hsecond : ∀ pk, reads.second.content pk = db.content pk)
    (hartifacts : ∀ a ∈ db.nixArtifacts.rows, (db.repoPackages.get (a.repoId, a.packageKey)).isSome →
      ServesArtifact config a.repoId a.filename k → ∃ a' ∈ reads.second.nixArtifacts.rows, a'.pk = a.pk) :
    ∃ ev, HeardEvidence lower identity config db ev ∧ ∀ e ∈ ev, e.target ≠ k := by
  obtain ⟨-, -, builder, redirects, first, second, hbuilder, hredirects, -, hev, keys, hcandidates⟩ := makePlanFrom_ok hplan
  rw [hcandidates] at hrow
  have hunserved := noteAll_notServed hrow
  rw [Database.findDuplicateFiles_congr (Database.sameFiles_of_content hduplicates),
    acceptedPairs_congr (Database.sameFiles_of_content howners)] at hredirects
  obtain ⟨ev, hev'⟩ := evidence_ok db hev
  refine ⟨ev, ⟨builder, redirects, hbuilder, hredirects, hev'⟩, fun e he htarget => ?_⟩
  obtain ⟨repo, hrepo, keyFor, hkey, hserved⟩ := (exists_target_iff hev').1 ⟨e, he, htarget⟩
  have hheard : ∃ e ∈ second, e.target = k := by
    refine (exists_target_iff hev).2 ⟨repo, hrepo, keyFor, hkey, ?_⟩
    rcases hserved with ⟨p, hp, hk⟩ | ⟨htype, a, ha, hid, hlisted, hk⟩
    · obtain ⟨p', hp', hfile⟩ := exists_file_of_content hsecond hp
      exact .inl ⟨p', hp', hfile ▸ hk⟩
    · obtain ⟨a', ha', hpk⟩ := hartifacts a ha hlisted ⟨repo, hrepo, hid.symm, htype, builder, keyFor, hbuilder, hkey, hk⟩
      obtain ⟨hid', hpk'⟩ := Prod.ext_iff.1 hpk
      obtain ⟨hpackage, hfile⟩ : a'.packageKey = a.packageKey ∧ a'.filename = a.filename := Prod.ext_iff.1 hpk'
      refine .inr ⟨htype, a', ha', hid'.trans hid, ?_, hfile ▸ hk⟩
      have hsame := hsecond (a.repoId, a.packageKey)
      unfold Database.content at hsame
      rw [show (a'.repoId, a'.packageKey) = (a.repoId, a.packageKey) from Prod.ext hid' hpackage,
        ← Option.isSome_map, hsame, Option.isSome_map]
      exact hlisted
  obtain ⟨e', he', htarget'⟩ := hheard
  exact hunserved e' he' htarget'

/-- **No purge of a served key**: in every run of a cleanup beside writes, a key that is being purged was, at the last
check, served to no owner, provided that no repository was deleted and given a snapshot since the plan was begun, and that
no artifact served from the key was recorded since its second pass. -/
theorem purges_unserved_run (lower : Str → Str) (identity : RepoConfig → Str)
    (dedupGeneration : Config → List (Str × Str) → Except Error Str) (config : Config) (args : CleanupArgs) (hasPath : Bool)
    (batches : List (List Str)) {before : List CatalogWrite} {db : Database} (h₀ : CatalogWrite.Written .empty before db)
    {events : List CleanupEvent} {s : CleanupSystem}
    (h : Run CleanupSystem.Step ⟨db, cleanup lower identity dedupGeneration config args hasPath batches⟩ events s)
    {k : Str} {after : Except Str Str → CleanupProgram} (hpurge : s.program = .request (.purge k) after) :
    ∃ pre seen, ∃ ws : List CatalogWrite, events = pre ++ .answer ⟨.read .check, seen⟩ :: ws.map .write ∧
      (KeepsRevisions pre → KeepsArtifacts config seen k pre →
        ∃ current, currentConfig hasPath config (answers pre) = some current ∧
          ∃ ev, HeardEvidence lower identity current seen ev ∧ ∀ e ∈ ev, e.target ≠ k) := by
  have hsafe := CleanupSystem.safe_of_run h (cleanup_safe batches)
  rw [hpurge] at hsafe
  obtain ⟨reads, plan, row, others, seen, hlog, hplan, hrow, heqv⟩ := hsafe.allowed
  rw [← List.append_assoc] at hlog
  obtain ⟨pre, post, s₁, s₂, rfl, hpre, hpost, h₁, hsees, -, -⟩ := CleanupSystem.cut_at_answer _ h hlog
  obtain rfl : seen = s₁.db := hsees
  obtain ⟨ws, rfl⟩ := CleanupSystem.eq_writes hpost
  refine ⟨pre, s₁.db, ws, rfl, fun hrevisions hartifacts => ⟨config, ?_, ?_⟩⟩
  · rw [hpre]
    exact currentConfig_loadLog _
  -- the run from the first read to the check
  obtain ⟨begun, mid, s₃, s₄, rfl, -, hmid, h₃, hsees, hdb, h₄⟩ := CleanupSystem.cut_at_answer [] h₁ hpre
  have hfirst : reads.revisions = s₃.db := hsees
  have h₀' : CatalogWrite.Written .empty (before ++ writes begun) s₄.db :=
    hdb ▸ h₀.append (CleanupSystem.written_of_run h₃)
  have heq : ∀ r, s₄.db.revision r = s₁.db.revision r := by
    intro r
    rw [(makePlanFrom_ok hplan).2.1, Dict.eqv_iff] at heqv
    rw [← Database.lookup_getSnapshotRevisions, ← Database.lookup_getSnapshotRevisions, hdb, ← hfirst, heqv]
  have hshown {moment : Moment} {x : Database} (log : CleanupLog) {log' : CleanupLog}
      (hx : answers mid = log ++ ⟨.read moment, x⟩ :: log') : ∀ pk, x.content pk = s₁.db.content pk :=
    content_of_shown h₀' h₄ heq (hrevisions begun _ mid rfl) hx
  refine unserved_of_plan hplan hrow (hshown [] hmid) (hshown [_] hmid) (hshown [_, _, _] hmid) ?_
  -- the run from the second pass to the check
  obtain ⟨pre₂, post₂, s₅, s₆, rfl, -, -, -, hsees₂, hdb₂, h₆⟩ := CleanupSystem.cut_at_answer [_, _, _] h₄ hmid
  have hsecond : reads.second = s₅.db := hsees₂
  have hkeeps := hartifacts (begun ++ .answer ⟨.read .revisions, reads.revisions⟩ :: pre₂) reads.second post₂
    (by rw [List.append_assoc, List.cons_append])
  exact fun a ha hlisted hserves => artifact_of_secondPass h₆ (hdb₂.trans hsecond.symm) hkeeps ha hlisted hserves

end Served

/-! ## Two runs -/

/-- Every file is cached under the generation of the plan, and every purge succeeds. -/
def cached : (r : CleanupRequest) → Database → r.Answer
  | .read _, db => db
  | .loadConfig, _ => none
  | .clock, _ => false
  | .probe _, _ => .ok ⟨true, none, []⟩
  | .purge _, _ => .ok "purged".toList

/-- The cleanup after a number of answers. -/
def CleanupSystem.drive : Nat → CleanupSystem → CleanupSystem
  | n + 1, ⟨db, .request r next⟩ => drive n ⟨db, next (cached r db)⟩
  | _, s => s

theorem CleanupSystem.exists_drive_run : ∀ (n : Nat) (s : CleanupSystem),
    ∃ events, Run Step s events (drive n s) ∧ writes events = []
  | 0, s => ⟨[], .nil s, rfl⟩
  | _ + 1, ⟨db, .done⟩ => ⟨[], .nil _, rfl⟩
  | n + 1, ⟨db, .request r next⟩ => by
    obtain ⟨events, hrun, hwrites⟩ := exists_drive_run n ⟨db, next (cached r db)⟩
    have hsees : Sees db r (cached r db) := by
      cases r with
      | read moment => exact rfl
      | _ => trivial
    exact ⟨.answer ⟨r, cached r db⟩ :: events, hrun.cons (.answer hsees), hwrites⟩

theorem CleanupSystem.drive_db : ∀ (n : Nat) (s : CleanupSystem), (drive n s).db = s.db
  | 0, _ => rfl
  | _ + 1, ⟨_, .done⟩ => rfl
  | n + 1, ⟨db, .request r next⟩ => drive_db n ⟨db, next (cached r db)⟩

/-- The cleanup waits for a check, which is followed by a purge of the key when it sees this database. -/
def CleanupProgram.checksBefore (key : Str) (db : Database) : CleanupProgram → Bool
  | .request (.read .check) next =>
    match next db with
    | .request (.purge k) _ => k == key
    | _ => false
  | _ => false

theorem CleanupProgram.of_checksBefore {key : Str} {db : Database} {p : CleanupProgram} (h : checksBefore key db p = true) :
    ∃ (next : Database → CleanupProgram) (after : Except Str Str → CleanupProgram),
      p = .request (.read .check) next ∧ next db = .request (.purge key) after := by
  unfold checksBefore at h
  split at h
  · rename_i next
    split at h
    · rename_i k after hnext
      obtain rfl := beq_iff_eq.1 h
      exact ⟨next, after, rfl, hnext⟩
    · cases h
  · cases h

def cleanTwinConfig : Config :=
  { twinConfig with
    nginx := { enabled := true, enablePurge := true, enableDedup := true, enableCacheProbe := true }
    versionOk := rfl }

def recordOne (repoId key filename hash : String) : CatalogWrite :=
  .catalog (.recordSnapshot (.listing repoId [(key, filename, hash)]) ⟨"t".toList, none, none, some repoId.toList⟩ fun _ => [])

/-- The twins as they were recorded. -/
def recordedTwins : Database := (recordOne "b" "q-1" "q.rpm" "f0").apply ((recordOne "a" "p-1" "p.rpm" "f0").apply .empty)

theorem recordedTwins_written :
    CatalogWrite.Written .empty [recordOne "a" "p-1" "p.rpm" "f0", recordOne "b" "q-1" "q.rpm" "f0"] recordedTwins :=
  .cons rfl (.cons rfl (.nil _))

/-- A cleanup of the second twin. -/
def cleanTwins : CleanupProgram :=
  cleanup asciiLower (fun repo => repo.id) (fun _ _ => .ok []) cleanTwinConfig {} false [["httph/y/q.rpm".toList]]

/-- A write while the cleanup waits for its probes, and the check after it. -/
theorem exists_cleanTwins_run {ws : List CatalogWrite} {db : Database} (hws : CatalogWrite.Written recordedTwins ws db)
    (h : ((⟨recordedTwins, cleanTwins⟩ : CleanupSystem).drive 10).program.checksBefore "httph/y/q.rpm".toList db = true) :
    ∃ (events : List CleanupEvent) (after : Except Str Str → CleanupProgram),
      Run CleanupSystem.Step ⟨recordedTwins, cleanTwins⟩ (events ++ [.answer ⟨.read .check, db⟩])
        ⟨db, .request (.purge "httph/y/q.rpm".toList) after⟩ ∧ writes events = ws := by
  obtain ⟨events, hrun, hwrites⟩ := CleanupSystem.exists_drive_run 10 ⟨recordedTwins, cleanTwins⟩
  obtain ⟨next, after, hprogram, hnext⟩ := CleanupProgram.of_checksBefore h
  have hdb := CleanupSystem.drive_db 10 ⟨recordedTwins, cleanTwins⟩
  generalize (⟨recordedTwins, cleanTwins⟩ : CleanupSystem).drive 10 = s at hrun hprogram hdb
  obtain ⟨sdb, program⟩ := s
  obtain rfl : sdb = recordedTwins := hdb
  obtain rfl : program = .request (.read .check) next := hprogram
  have hwritten : Run CleanupSystem.Step ⟨recordedTwins, .request (.read .check) next⟩ (ws.map .write)
      ⟨db, .request (.read .check) next⟩ := by
    refine hws.history (fun ws db => Run CleanupSystem.Step ⟨recordedTwins, .request (.read .check) next⟩
      (ws.map .write) ⟨db, .request (.read .check) next⟩) (.nil _) ?_
    rintro ws db w _ - ih rfl
    rw [List.map_append]
    exact .snoc ih (.write ..)
  refine ⟨events ++ ws.map .write, after, .snoc (hrun.append hwritten) (hnext ▸ .answer (r := .read .check) rfl), ?_⟩
  rw [writes_append, hwrites, writes_map_write, List.nil_append]

/-- The second twin is deleted and recorded again with another hash. -/
def readdTwin : List CatalogWrite :=
  [.catalog (.deleteRepoRows "b".toList), .deleteCacheRows "b".toList, recordOne "b" "q-1" "q.rpm" "f1"]

/-- The evidence that a plan over a database would hear. -/
def hear (config : Config) (db : Database) : Except Error (List CleanupEvidence) := do
  let builder ← CacheKeyBuilder.new config
  let redirects ← dedupKeys asciiLower config db.findDuplicateFiles builder
    (acceptedPairs asciiLower config db db.findDuplicateFiles)
  evidence asciiLower (fun repo => repo.id) config db builder redirects

theorem HeardEvidence.eq_hear {config : Config} {db : Database} {ev : List CleanupEvidence}
    (h : HeardEvidence asciiLower (fun repo => repo.id) config db ev) : hear config db = .ok ev := by
  obtain ⟨builder, redirects, hbuilder, hredirects, hev⟩ := h
  unfold hear
  rw [hbuilder]
  refine bind_eq_ok.2 ⟨builder, rfl, bind_eq_ok.2 ⟨redirects, hredirects, hev⟩⟩

/-- A repository that is deleted and recorded again has the revision it had, and the purge of the file it is now served
from is sent. -/
theorem purges_readded_twin : ¬ ∀ (lower : Str → Str) (identity : RepoConfig → Str)
    (dedupGeneration : Config → List (Str × Str) → Except Error Str) (config : Config) (args : CleanupArgs) (hasPath : Bool)
    (batches : List (List Str)) (before : List CatalogWrite) (db : Database), CatalogWrite.Written .empty before db →
    ∀ (events : List CleanupEvent) (s : CleanupSystem),
      Run CleanupSystem.Step ⟨db, cleanup lower identity dedupGeneration config args hasPath batches⟩ events s →
      ∀ (k : Str) (after : Except Str Str → CleanupProgram), s.program = .request (.purge k) after →
        ∃ pre seen, ∃ ws : List CatalogWrite, events = pre ++ .answer ⟨.read .check, seen⟩ :: ws.map .write ∧
          ∃ current, currentConfig hasPath config (answers pre) = some current ∧
            ∃ ev, HeardEvidence lower identity current seen ev ∧ ∀ e ∈ ev, e.target ≠ k := by
  intro h
  have hwritten : CatalogWrite.Written recordedTwins readdTwin (readdTwin.foldl CatalogWrite.apply recordedTwins) :=
    .cons rfl (.cons rfl (.cons rfl (.nil _)))
  obtain ⟨events, after, hrun, -⟩ := exists_cleanTwins_run hwritten (by decide +kernel)
  obtain ⟨pre, seen, ws, heq, current, hcurrent, ev, hev, hall⟩ :=
    h _ _ _ _ _ _ _ _ _ recordedTwins_written _ _ hrun _ _ rfl
  obtain rfl : cleanTwinConfig = current := Option.some.inj hcurrent
  -- the last event is the check
  rcases List.eq_nil_or_concat ws with rfl | ⟨ws, w, rfl⟩
  · obtain ⟨-, hlast⟩ := List.append_inj' heq rfl
    cases hlast
    have hserved : (hear cleanTwinConfig (readdTwin.foldl CatalogWrite.apply recordedTwins)).toOption.any
        (fun ev => ev.any fun e => e.target == "httph/y/q.rpm".toList) = true := by decide +kernel
    rw [hev.eq_hear] at hserved
    obtain ⟨e, he, htarget⟩ := List.any_eq_true.1 hserved
    exact hall e he (beq_iff_eq.1 htarget)
  · rw [List.concat_eq_append, List.map_append, ← List.cons_append, ← List.append_assoc] at heq
    obtain ⟨-, hlast⟩ := List.append_inj' heq rfl
    cases hlast

/-- With nothing but a check of the first twin in between, the file that is purged is served to no one. -/
theorem purges_unserved_run_twins : ∃ (events pre : List CleanupEvent) (seen : Database) (ws : List CatalogWrite),
    events = pre ++ .answer ⟨.read .check, seen⟩ :: ws.map .write ∧
      ∃ current, currentConfig false cleanTwinConfig (answers pre) = some current ∧
        ∃ ev, HeardEvidence asciiLower (fun repo => repo.id) current seen ev ∧
          ∀ e ∈ ev, e.target ≠ "httph/y/q.rpm".toList := by
  have hwritten : CatalogWrite.Written recordedTwins [.catalog (.touchLastCheck "a".toList "u".toList)]
      (RevisionOp.apply recordedTwins (.touchLastCheck "a".toList "u".toList)) := .cons rfl (.nil _)
  obtain ⟨events, after, hrun, hwrites⟩ := exists_cleanTwins_run hwritten (by decide +kernel)
  obtain ⟨pre, seen, ws, heq, hunserved⟩ := purges_unserved_run asciiLower (fun repo => repo.id) (fun _ _ => .ok [])
    cleanTwinConfig {} false [["httph/y/q.rpm".toList]] recordedTwins_written hrun rfl
  have htouch : ∀ {begun seen' post}, pre = begun ++ .answer seen' :: post → ∀ w ∈ writes post,
      w = .catalog (.touchLastCheck "a".toList "u".toList) := by
    rintro begun seen' post rfl w hw
    have hsame := congrArg writes heq
    simp only [writes_append, writes_cons_answer, writes_nil, List.append_nil, hwrites] at hsame
    exact List.mem_singleton.1 (hsame ▸ by simp [hw])
  refine ⟨_, pre, seen, ws, heq, hunserved (fun begun seen' post hpre r => .inl ?_) ?_⟩
  · refine List.any_eq_false.2 fun op hop => ?_
    obtain ⟨w, hw, hop⟩ := List.mem_filterMap.1 hop
    rw [htouch hpre w hw] at hop
    cases hop
    exact Bool.false_ne_true
  · intro begun seen' post hpre repoId packageKey artifacts hw
    cases htouch hpre _ hw

end RepoWatch
