import RepoWatch.PurgeRecords
/-!
# PurgeRuns — passes among the writers of warm records

Any number of passes and writers take their steps in any order: a pass between two of its requests, a writer at once.
Every write draws a revision that no row has had, so a row that still carries a captured revision has not been written
since the capture.
-/
namespace RepoWatch

open Lib

/-- A pass on its way: what it has been answered, and what is left of its program. -/
structure PassRun where
  pass : Pass
  log : PurgeLog
  program : PurgeProgram

/-- The store, the revisions drawn so far and the passes on their way. -/
structure WarmSystem where
  store : NixStore
  issued : List Str
  runs : List PassRun

/-- A write, a pass that starts, or the answer to the request of the `i`-th pass.  `write` is any other change of the
store. -/
inductive WarmAction where
  | warm (repoId packageKey filename : Str) (ok : Bool) (httpStatus : Option Int) (source now revision : Str)
  | touch (repoId filename now : Str) (revision : Str × Str → Str)
  | trust (repoId : Str) (verify : Bool) (keys : List Str) (source : Option Str) (revision : Str × Str → Str)
  | write (store : NixStore)
  | start (pass : Pass)
  | proceed (i : Nat)

/-- How the database answers a request, and what the answer leaves; a purge and the clock answer anything. -/
def Answers (db : Database) : (r : PurgeRequest) → r.Answer → Database → Prop
  | .expiry, _, db' => db' = db
  | .read repoId keys cutoff, answer, db' => answer = db.warmedRows repoId keys cutoff ∧ db' = db
  | .purge .., _, db' => db' = db
  | .remove repoId records resolved, _, db' => db' = db.removePurgedRecords repoId records resolved

theorem row_removePurgedRecords {db : Database} {row : WarmedRow} {repoId : Str} {records : Records} {resolved : List Str} :
    row ∈ (db.removePurgedRecords repoId records resolved).warmedPackages.rows ↔ row ∈ db.warmedPackages.rows ∧
      ¬ (row.repoId = repoId ∧ row.packageKey ∈ resolved ∧
        ∃ record, records.lookup row.packageKey = some record ∧ record.2 = row.revision) := by
  unfold Database.removePurgedRecords
  rw [Table.filter_rows, List.mem_filter]
  rw [Bool.not_eq_true', ← Bool.not_eq_true, Bool.and_eq_true, decide_eq_true_eq, Option.any_eq_true]
  simp only [decide_eq_true_eq, and_assoc]

/-- What an answer leaves of the warm records was there before. -/
theorem Answers.mem {db db' : Database} {row : WarmedRow} {r : PurgeRequest} {answer : r.Answer} (h : Answers db r answer db')
    (hrow : row ∈ db'.warmedPackages.rows) : row ∈ db.warmedPackages.rows := by
  cases r with
  | expiry => exact h ▸ hrow
  | read repoId keys cutoff => exact h.2 ▸ hrow
  | purge repo items =>
    obtain rfl : db' = db := h
    exact hrow
  | remove repoId records resolved =>
    obtain rfl : db' = db.removePurgedRecords repoId records resolved := h
    exact (row_removePurgedRecords.1 hrow).1

namespace WarmSystem

def db (s : WarmSystem) : Database := s.store.db

/-- No row of the store has a revision of these yet. -/
def Fresh (s : WarmSystem) (revision : Str × Str → Str) : Prop :=
  ∀ r ∈ s.db.warmedPackages.rows, revision r.pk ∉ s.issued

/-- The revisions that an update of the store's rows may draw. -/
def draws (s : WarmSystem) (revision : Str × Str → Str) : List Str :=
  s.db.warmedPackages.rows.map fun r => revision r.pk

inductive Step : WarmSystem → WarmAction → WarmSystem → Prop
  | warm {s repoId packageKey filename ok httpStatus source now revision} : revision ∉ s.issued →
      Step s (.warm repoId packageKey filename ok httpStatus source now revision)
        { s with
          store := { s.store with
            db := s.db.recordWarmedPackage repoId packageKey filename ok httpStatus source now revision }
          issued := revision :: s.issued }
  | touch {s repoId filename now revision} : s.Fresh revision →
      Step s (.touch repoId filename now revision)
        { s with
          store := { s.store with db := s.db.touchNixArtifact repoId filename now revision }
          issued := s.draws revision ++ s.issued }
  | trust {s repoId verify keys source revision} : s.Fresh revision →
      Step s (.trust repoId verify keys source revision)
        { s with
          store := s.store.updateNixTrust repoId verify keys source revision
          issued := s.draws revision ++ s.issued }
  | write {s store} : (∀ r ∈ store.db.warmedPackages.rows, r ∈ s.db.warmedPackages.rows) →
      Step s (.write store) { s with store := store }
  | start {s pass} : Step s (.start pass) { s with runs := s.runs ++ [⟨pass, [], pass.program⟩] }
  | proceed {s i pass log r next answer db} : s.runs[i]? = some ⟨pass, log, .request r next⟩ →
      Answers s.db r answer db →
      Step s (.proceed i)
        { s with
          store := { s.store with db := db }
          runs := s.runs.set i ⟨pass, log ++ [⟨r, answer⟩], next answer⟩ }

/-- No pass is on its way, and the revisions of the store are drawn. -/
structure Initial (s : WarmSystem) : Prop where
  idle : s.runs = []
  issued : ∀ r ∈ s.db.warmedPackages.rows, r.revision ∈ s.issued

/-- The `i`-th pass captured the row from the state `s₁`, after which the actions `since` came. -/
def Captured (s₀ : WarmSystem) (ops : List WarmAction) (s : WarmSystem) (i : Nat) (repoId : Str) (row : WarmedRow)
    (s₁ : WarmSystem) (since : List WarmAction) : Prop :=
  ∃ before keys cutoff run next, ops = before ++ since ∧ Run Step s₀ before s₁ ∧ Run Step s₁ since s ∧
    s₁.runs[i]? = some run ∧ run.program = .request (.read repoId keys cutoff) next ∧
    row ∈ (s₁.db.warmedRows repoId keys cutoff).rows

/-- The `i`-th pass captured the row and no write has reached it since. -/
def Unwritten (s₀ : WarmSystem) (ops : List WarmAction) (s : WarmSystem) (i : Nat) (repoId : Str) (row : WarmedRow) :
    Prop :=
  ∃ s₁ since, Captured s₀ ops s i repoId row s₁ since ∧ ∀ mid rest s₂, since = mid ++ rest →
    Run Step s₁ mid s₂ → Run Step s₂ rest s → s₂.db.warmedPackages.get row.pk = some row

/-- The purge just answered has resolved the key, or its repository is no longer configured. -/
def Resolved (run : PassRun) (repoId key : Str) : Prop :=
  run.pass.config.repoById repoId = none ∨ ∃ before repo items outcome, ∃ results : Dict Str Str,
    run.log = before ++ [⟨.purge repo items, results⟩] ∧ repo.id = repoId ∧
    results.lookup key = some outcome ∧ isResolved outcome = true

/-- What holds of the `i`-th pass in a state that the actions have reached. -/
structure Guarded (s₀ : WarmSystem) (ops : List WarmAction) (s : WarmSystem) (i : Nat) (run : PassRun) : Prop where
  deleted : ∀ repoId records resolved next, run.program = .request (.remove repoId records resolved) next →
    ∀ row ∈ s.db.warmedPackages.rows,
      row ∉ (s.db.removePurgedRecords repoId records resolved).warmedPackages.rows →
      Unwritten s₀ ops s i repoId row ∧ Resolved run repoId row.packageKey
  complete : ∀ repoId records resolved next, run.program = .request (.remove repoId records resolved) next →
    ∀ row ∈ s.db.warmedPackages.rows, Read run.log repoId row → Resolved run repoId row.packageKey →
      row ∉ (s.db.removePurgedRecords repoId records resolved).warmedPackages.rows
  ended : run.program = .done → run.pass.Ended run.log
  purged : ∀ before repo items, ∀ results : Dict Str Str, ∀ after,
    run.log = before ++ ⟨.purge repo items, results⟩ :: after → ∀ key filename, items.lookup key = some filename →
      ∃ row, Read before repo.id row ∧ row.packageKey = key ∧ row.filename = filename
  expired : ∀ config stale, run.pass = .retention config stale → ∀ repoId row, Read run.log repoId row →
    ∃ before since after keys, ∃ c : Str, ∃ answer : WarmedRows repoId keys (some c),
      run.log = before ++ ⟨.expiry, c⟩ :: (since ++ ⟨.read repoId keys (some c), answer⟩ :: after) ∧
      Captures repoId since ∧ row ∈ answer.rows ∧ row.warmedAt < c

section
variable {s s' s₀ : WarmSystem} {a : WarmAction} {ops : List WarmAction} {row : WarmedRow} {pk : Str × Str}

/-! ## Writes draw fresh revisions -/

/-- **A row after a step** was there before it or carries a revision that was not drawn before it; either way its
revision is drawn. -/
theorem Step.mem (h : Step s a s') (hrow : row ∈ s'.db.warmedPackages.rows) :
    row ∈ s.db.warmedPackages.rows ∨ row.revision ∉ s.issued ∧ row.revision ∈ s'.issued := by
  cases h with
  | @warm repoId packageKey filename ok httpStatus source now revision hfresh =>
    rw [Table.mem_rows_iff] at hrow ⊢
    rw [db, Database.get_recordWarmedPackage] at hrow
    split at hrow
    · cases hrow
      exact .inr ⟨hfresh, List.mem_cons_self⟩
    · exact .inl hrow
  | @touch repoId filename now revision hfresh =>
    rw [db, Table.mem_rows_iff, Database.get_touchNixArtifact] at hrow
    obtain ⟨old, hold, hrow⟩ := Option.map_eq_some_iff.1 hrow
    have hmem := Table.mem_of_get hold
    unfold Database.touchedRow at hrow
    split at hrow
    · subst hrow
      exact .inr ⟨hfresh old hmem, List.mem_append_left _ (List.mem_map_of_mem hmem)⟩
    · exact .inl (hrow ▸ hmem)
  | @trust repoId verify keys source revision hfresh =>
    unfold db NixStore.updateNixTrust at hrow
    dsimp only at hrow
    split at hrow
    · rw [Table.mem_rows_iff, Database.get_failWarmed] at hrow
      obtain ⟨old, hold, hrow⟩ := Option.map_eq_some_iff.1 hrow
      have hmem := Table.mem_of_get hold
      unfold Database.failedRow at hrow
      split at hrow
      · subst hrow
        exact .inr ⟨hfresh old hmem, List.mem_append_left _ (List.mem_map_of_mem hmem)⟩
      · exact .inl (hrow ▸ hmem)
    · exact .inl hrow
  | write hsub => exact .inl (hsub row hrow)
  | start => exact .inl hrow
  | proceed _ hanswer => exact .inl (Answers.mem hanswer hrow)

theorem Step.issued_subset (h : Step s a s') : s.issued ⊆ s'.issued := by
  intro revision hrev
  cases h with
  | warm => exact List.mem_cons_of_mem _ hrev
  | touch => exact List.mem_append_right _ hrev
  | trust => exact List.mem_append_right _ hrev
  | write => exact hrev
  | start => exact hrev
  | proceed => exact hrev

theorem issued_subset_of_run (h : Run Step s ops s') : s.issued ⊆ s'.issued :=
  h.invariant (fun t => s.issued ⊆ t.issued) (fun _ _ _ hsub hstep => List.Subset.trans hsub hstep.issued_subset)
    (List.Subset.refl _)

theorem issued_of_run (h : Run Step s ops s') (h₀ : ∀ r ∈ s.db.warmedPackages.rows, r.revision ∈ s.issued) :
    ∀ r ∈ s'.db.warmedPackages.rows, r.revision ∈ s'.issued := by
  refine h.invariant (fun t => ∀ r ∈ t.db.warmedPackages.rows, r.revision ∈ t.issued) ?_ h₀
  intro t b t' ht hstep r hr
  rcases hstep.mem hr with hold | ⟨-, hnew⟩
  · exact hstep.issued_subset (ht r hold)
  · exact hnew

/-- **A row whose revision was drawn** before a run was there before it. -/
theorem mem_of_run (h : Run Step s ops s') : ∀ row ∈ s'.db.warmedPackages.rows, row.revision ∈ s.issued →
    row ∈ s.db.warmedPackages.rows := by
  induction h with
  | nil => exact fun row hrow _ => hrow
  | snoc hrun hstep ih =>
    intro row hrow hrev
    rcases hstep.mem hrow with hold | ⟨hnew, -⟩
    · exact ih row hold hrev
    · exact absurd (issued_subset_of_run hrun hrev) hnew

/-! ## What a pass knows -/

/-- The `i`-th pass of a state after a step: it was there, it has just started, or it is the one that was answered. -/
theorem Step.runs (h : Step s a s') {i : Nat} {run : PassRun} (hrun : s'.runs[i]? = some run) :
    s.runs[i]? = some run ∨ (∃ pass, run = ⟨pass, [], pass.program⟩) ∨
      ∃ pass log r next answer db, a = .proceed i ∧ s.runs[i]? = some ⟨pass, log, .request r next⟩ ∧
        Answers s.db r answer db ∧ run = ⟨pass, log ++ [⟨r, answer⟩], next answer⟩ := by
  cases h with
  | warm => exact .inl hrun
  | touch => exact .inl hrun
  | trust => exact .inl hrun
  | write => exact .inl hrun
  | @start pass =>
    dsimp only at hrun
    rw [List.getElem?_append] at hrun
    split at hrun
    · exact .inl hrun
    · obtain ⟨-, rfl⟩ := List.getElem?_eq_some_iff.1 hrun
      exact .inr (.inl ⟨pass, by simp⟩)
  | @proceed j pass log r next answer db hj hanswer =>
    dsimp only at hrun
    rw [List.getElem?_set] at hrun
    split at hrun
    · rename_i hji
      subst hji
      split at hrun
      · cases hrun
        exact .inr (.inr ⟨pass, log, r, next, answer, db, rfl, hj, hanswer, rfl⟩)
      · cases hrun
    · exact .inl hrun

/-- What is known of the `i`-th pass: its requests were and will be allowed, and what it has read it captured. -/
structure Tracked (s₀ : WarmSystem) (ops : List WarmAction) (s : WarmSystem) (i : Nat) (run : PassRun) : Prop where
  meets : Program.Meets run.pass.Allowed run.pass.Ended run.log run.program
  lawful : Program.Lawful run.pass.Allowed run.log
  captured : ∀ repoId row, Read run.log repoId row → ∃ s₁ since, Captured s₀ ops s i repoId row s₁ since

theorem Captured.snoc {i : Nat} {repoId : Str} {s₁ : WarmSystem} {since : List WarmAction}
    (h : Captured s₀ ops s i repoId row s₁ since) (hstep : Step s a s') :
    Captured s₀ (ops ++ [a]) s' i repoId row s₁ (since ++ [a]) := by
  obtain ⟨before, keys, cutoff, run, next, rfl, hbefore, hsince, hrun⟩ := h
  exact ⟨before, keys, cutoff, run, next, List.append_assoc .., hbefore, .snoc hsince hstep, hrun⟩

theorem tracked_of_run (h₀ : s₀.Initial) (h : Run Step s₀ ops s) : ∀ i run, s.runs[i]? = some run →
    Tracked s₀ ops s i run := by
  refine h.history (fun ops s => ∀ i run, s.runs[i]? = some run → Tracked s₀ ops s i run) ?_ ?_
  · intro i run hrun
    rw [h₀.idle] at hrun
    cases hrun
  · intro ops s a s' hops ih hstep i run hrun
    rcases hstep.runs hrun with hold | ⟨pass, rfl⟩ | ⟨pass, log, r, next, answer, db, rfl, hold, hanswer, rfl⟩
    · refine ⟨(ih i run hold).meets, (ih i run hold).lawful, fun repoId row hread => ?_⟩
      obtain ⟨s₁, since, hcaptured⟩ := (ih i run hold).captured repoId row hread
      exact ⟨s₁, _, hcaptured.snoc hstep⟩
    · refine ⟨pass.meets, Program.lawful_nil, ?_⟩
      rintro repoId row ⟨_, _, _, hmem, _⟩
      exact absurd hmem List.not_mem_nil
    · have hmeets := (ih i _ hold).meets
      refine ⟨hmeets.answer answer, (ih i _ hold).lawful.answer hmeets.allowed answer, fun repoId row hread => ?_⟩
      rcases read_append.1 hread with hread | ⟨keys, cutoff, rows, hmem, hrow⟩
      · obtain ⟨s₁, since, hcaptured⟩ := (ih i _ hold).captured repoId row hread
        exact ⟨s₁, _, hcaptured.snoc hstep⟩
      · cases List.mem_singleton.1 hmem
        exact ⟨s, [.proceed i], ops, keys, cutoff, _, next, rfl, hops, .snoc (.nil s) hstep, hold, rfl, hanswer.1 ▸ hrow⟩

/-- **A row that still carries a captured revision** is the captured row, and was there all the time since. -/
theorem unwritten_of_captured (h₀ : s₀.Initial) {i : Nat} {repoId : Str} {s₁ : WarmSystem} {since : List WarmAction}
    {captured : WarmedRow} (h : Captured s₀ ops s i repoId captured s₁ since) (hrow : row ∈ s.db.warmedPackages.rows)
    (hpk : row.pk = captured.pk) (hrev : row.revision = captured.revision) : Unwritten s₀ ops s i repoId row := by
  obtain ⟨before, keys, cutoff, run, next, hops, hbefore, hsince, hrun, hprogram, hmem⟩ := h
  have hold : captured ∈ s₁.db.warmedPackages.rows := (List.mem_filter.1 hmem).1
  have hissued : row.revision ∈ s₁.issued := hrev ▸ issued_of_run hbefore h₀.issued captured hold
  have hthere := mem_of_run hsince row hrow hissued
  obtain rfl : row = captured := by
    have hget := Table.get_of_mem hthere
    rw [hpk, Table.get_of_mem hold, Option.some.injEq] at hget
    exact hget.symm
  refine ⟨s₁, since, ⟨before, keys, cutoff, run, next, hops, hbefore, hsince, hrun, hprogram, hmem⟩, ?_⟩
  intro mid rest s₂ _ hmid hrest
  exact Table.get_of_mem (mem_of_run hrest row hrow (issued_subset_of_run hmid hissued))

/-- **No purge forgets a newer warm**: what any pass deletes in any run is what it captured, unwritten since, and
resolved; and what it captured, is unwritten and resolved is deleted. -/
theorem purge_records_run (h₀ : s₀.Initial) (h : Run Step s₀ ops s) {i : Nat} {run : PassRun}
    (hrun : s.runs[i]? = some run) : Guarded s₀ ops s i run := by
  have htracked := tracked_of_run h₀ h i run hrun
  constructor
  case deleted =>
    intro repoId records resolved next hprogram row hrow hgone
    have hallowed : run.pass.Allowed run.log (.remove repoId records resolved) := by
      have hmeets := htracked.meets
      rw [hprogram] at hmeets
      exact hmeets.allowed
    obtain ⟨hrecords, hresolved⟩ := hallowed
    rw [row_removePurgedRecords, not_and, not_not] at hgone
    obtain ⟨rfl, hkey, record, hrecord, hrev⟩ := hgone hrow
    obtain ⟨captured, hread, hcaptured, rfl⟩ := (hrecords _ _).1 hrecord
    obtain ⟨s₁, since, hsince⟩ := htracked.captured _ _ hread
    have hpk : row.pk = captured.pk := Prod.ext hread.repoId_eq.symm hcaptured.symm
    refine ⟨unwritten_of_captured h₀ hsince hrow hpk hrev.symm, ?_⟩
    rcases hresolved with ⟨hnone, -⟩ | ⟨before, repo, items, results, hlog, hid, rfl⟩
    · exact .inl hnone
    · obtain ⟨outcome, houtcome, hok⟩ := mem_resolvedPurgeKeys.1 hkey
      exact .inr ⟨before, repo, items, outcome, results, hlog, hid, houtcome, hok⟩
  case complete =>
    intro repoId records resolved next hprogram row hrow hread hresolved hstays
    have hallowed : run.pass.Allowed run.log (.remove repoId records resolved) := by
      have hmeets := htracked.meets
      rw [hprogram] at hmeets
      exact hmeets.allowed
    obtain ⟨hrecords, hkeys⟩ := hallowed
    refine (row_removePurgedRecords.1 hstays).2 ⟨hread.repoId_eq, ?_, _, (hrecords _ _).2 ⟨row, hread, rfl, rfl⟩, rfl⟩
    rcases hkeys with ⟨-, hall⟩ | ⟨before, repo, items, results, hlog, hid, rfl⟩
    · exact hall _ (hrecords.mem_keys hread)
    · have hpurge : run.pass.Allowed before (.purge repo items) := htracked.lawful before _ results [] hlog
      rcases hresolved with hnone | ⟨before', repo', items', outcome, results', hlog', -, houtcome, hok⟩
      · rw [← hid, hpurge.1] at hnone
        cases hnone
      · obtain ⟨-, heq⟩ := List.append_inj' (hlog.symm.trans hlog') rfl
        cases heq
        exact mem_resolvedPurgeKeys.2 ⟨outcome, houtcome, hok⟩
  case ended =>
    intro hdone
    have hmeets := htracked.meets
    rw [hdone] at hmeets
    exact hmeets
  case purged =>
    intro before repo items results after hlog key filename hitem
    have hpurge : run.pass.Allowed before (.purge repo items) := htracked.lawful before _ results after hlog
    exact (hpurge.2 key filename).1 hitem
  case expired =>
    rintro config stale hpass repoId row ⟨keys, cutoff, answer, hmem, hrow⟩
    obtain ⟨before, after, hlog⟩ := List.append_of_mem hmem
    have hread : run.pass.Allowed before (.read repoId keys cutoff) := htracked.lawful before _ answer after hlog
    have hcutoff : run.pass.Cutoff before repoId cutoff := hread.1
    rw [hpass] at hcutoff
    obtain ⟨before, since, c, rfl, rfl, hsince⟩ := hcutoff
    refine ⟨before, since, after, keys, c, answer, ?_, hsince, hrow, (answer.selected row hrow).2.2 c rfl⟩
    rw [hlog, List.append_assoc, List.cons_append]

end

/-! Two warm packages; one of them is warmed again while the purge of both is under way. -/

def twoWarm : WarmSystem where
  store := ⟨(Database.empty.recordWarmedPackage "r".toList "k".toList "f".toList true none [] [] "1".toList
    ).recordWarmedPackage "r".toList "j".toList "g".toList true none [] [] "2".toList, .empty⟩
  issued := ["1".toList, "2".toList]
  runs := []

def bothSelected : Pass := .selected ReplacementSystem.purgingConfig "r".toList ["k".toList, "j".toList]

theorem purge_records_run_rewarmed : ∃ ops s run records next, Guarded twoWarm ops s 0 run ∧
    run.program = .request (.remove "r".toList records ["k".toList, "j".toList]) next ∧
    (s.db.removePurgedRecords "r".toList records ["k".toList, "j".toList]).warmedPackages.rows.map
      WarmedRow.packageKey = ["k".toList] := by
  have hidle : Run Step twoWarm [] twoWarm := .nil twoWarm
  have hstarted := hidle.snoc (@Step.start _ bothSelected)
  have hread := hstarted.snoc (@Step.proceed _ 0 _ _ _ _ _ _ rfl ⟨rfl, rfl⟩)
  have hwarmed := hread.snoc (@Step.warm _ "r".toList "k".toList "f".toList true none [] [] "3".toList (by decide))
  have hpurged := hwarmed.snoc (@Step.proceed _ 0 _ _ (.purge _ _) _
    (Dict.ofPairs [("k".toList, "purged".toList), ("j".toList, "purged".toList)]) _ rfl rfl)
  exact ⟨_, _, _, _, _, purge_records_run ⟨rfl, by decide⟩ hpurged rfl, rfl, by decide⟩

end WarmSystem
end RepoWatch
