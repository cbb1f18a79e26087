import RepoWatch.Lib.Run
import RepoWatch.Lib.Program
import RepoWatch.Config
import RepoWatch.Repositories
import RepoWatch.CacheStore
/-!
# Replacements — the queue of replaced packages under concurrent refreshes

`refreshReplacements` is a program: it awaits a purge for each target, then a warm, and finishes the replacement under the
revision it has read.  Any number of such programs run against one database while snapshots rewrite the queue.  What a
program requests is said by `Refresh.Allowed`, which holds whatever it is answered (`refreshReplacements_safe`); what the
system then guarantees is `replacements_run`.
-/
namespace RepoWatch

open Lib

/-! ## The program -/

inductive Request where
  | purge (target : RepoConfig) (key filename : Str)
  | warm (key filename : Str) (expectedHash : Option Str)
  | finish (key revision : Str) (error : Option Str)

/-- A purge answers its outcome, a warm the success recorded for the key, if any. -/
abbrev Request.Answer : Request → Type
  | .purge .. => Str
  | .warm .. => Option Bool
  | .finish .. => Unit

abbrev RefreshProgram := Program Request Request.Answer
abbrev RefreshLog := List (Σ r : Request, r.Answer)

/-- `in ('purged', 'not_cached')`. -/
def isConfirmed (outcome : Str) : Bool := outcome == "purged".toList || outcome == "not_cached".toList

/-- The loop over the targets of an item; it ends with the first error, or with none. -/
def purgeTargets (config : Config) (repo : RepoConfig) (key : Str) (next : Option Str → RefreshProgram) :
    List (Str × Str) → RefreshProgram
  | [] => next none
  | (targetId, filename) :: targets =>
    if targetId ≠ repo.id ∧ config.nginx.enableDedup = false then purgeTargets config repo key next targets
    else if filename = [] then purgeTargets config repo key next targets
    else match config.repoById targetId with
      | none => next (some "replacement purge target is unavailable".toList)
      | some target => .request (.purge target key filename) fun (outcome : Str) =>
        if isConfirmed outcome then purgeTargets config repo key next targets else next (some outcome)

/-- What one run of `refresh_replacements` has been given: `interested` and `allows` are what it found of the demand and
of the warming policy. -/
structure RefreshContext where
  config : Config
  repo : RepoConfig
  interested : List Str
  allows : Str → Bool

namespace RefreshContext
variable (c : RefreshContext)

/-- A replacement that is to be warmed once its targets are confirmed. -/
def toWarm (key : Str) (filename : Option Str) : Bool :=
  known filename && c.repo.prefetch && c.interested.contains key && c.allows key

def warmReplacement (item : PendingItem) (error : Option Str) (next : Option Str → RefreshProgram) : RefreshProgram :=
  match error, item.filename with
  | none, some filename =>
    if c.toWarm item.packageKey item.filename then
      .request (.warm item.packageKey filename (if known item.contentHash then item.contentHash else none))
        fun (warmed : Option Bool) =>
          next (if warmed = some true then none else some "replacement warm failed; retry on next check".toList)
    else next none
  | error, _ => next error

/-- One item of the loop. -/
def refreshItem (item : PendingItem) (rest : RefreshProgram) : RefreshProgram :=
  let finish (error : Option Str) : RefreshProgram :=
    c.warmReplacement item error fun error =>
      .request (.finish item.packageKey item.revision error) fun (_ : Unit) => rest
  if c.config.nginx.enablePurge = false then
    finish (some "replacement requires nginx.enable_purge; cache refresh is pending".toList)
  else purgeTargets c.config c.repo item.packageKey finish item.targets

/-- `replacements.refresh_replacements` on the pending items it has read. -/
def refreshReplacements (pending : List PendingItem) : RefreshProgram := pending.foldr c.refreshItem .done

/-! ## What it requests -/

/-- A target that a run has to purge: its own repository's, or any with dedup on, under a file name. -/
def Applicable (target : Str × Str) : Prop :=
  (target.1 = c.repo.id ∨ c.config.nginx.enableDedup = true) ∧ target.2 ≠ []

/-- Every applicable target was answered `purged` or `not_cached`. -/
def Confirmed (key : Str) (targets : List (Str × Str)) (log : RefreshLog) : Prop :=
  ∀ t ∈ targets, c.Applicable t → ∃ target outcome, target.id = t.1 ∧ isConfirmed outcome = true ∧
    ⟨.purge target key t.2, outcome⟩ ∈ log

/-- A warm of the key under the file name was reported successful. -/
def WarmedOk (key filename : Str) (log : RefreshLog) : Prop :=
  ∃ expectedHash, ⟨.warm key filename expectedHash, some true⟩ ∈ log

/-- What a run that has read `pending` may request after the answers in `log`: a warm only once the key's targets are
confirmed, a finish only of an item under its revision, and without an error only once it is done. -/
def Allowed (pending : List PendingItem) (log : RefreshLog) : Request → Prop
  | .purge .. => True
  | .warm key filename _ => ∃ item ∈ pending, item.packageKey = key ∧ item.filename = some filename ∧
      c.config.nginx.enablePurge = true ∧ c.Confirmed key item.targets log
  | .finish key revision error => ∃ item ∈ pending, item.packageKey = key ∧ item.revision = revision ∧
      (error = none → c.config.nginx.enablePurge = true ∧ c.Confirmed key item.targets log ∧
        ∀ filename, item.filename = some filename → c.toWarm key item.filename = true → WarmedOk key filename log)

variable {c}

theorem Confirmed.mono {key : Str} {targets : List (Str × Str)} {log log' : RefreshLog} (h : c.Confirmed key targets log)
    (hsub : log ⊆ log') : c.Confirmed key targets log' := fun t ht ha => by
  obtain ⟨target, outcome, hid, hok, hm⟩ := h t ht ha
  exact ⟨target, outcome, hid, hok, hsub hm⟩

/-- The loop over the targets continues without an error only when they are confirmed. -/
theorem purgeTargets_safe {pending : List PendingItem} {key : Str} {next : Option Str → RefreshProgram} :
    ∀ (targets done : List (Str × Str)) (log : RefreshLog), c.Confirmed key done log →
      (∀ log' error, (error = none → c.Confirmed key (done ++ targets) log') →
        (next error).Safe (c.Allowed pending) log') →
      (purgeTargets c.config c.repo key next targets).Safe (c.Allowed pending) log
  | [], done, log, hdone, hnext => hnext log none fun _ => by simpa using hdone
  | (targetId, filename) :: targets, done, log, hdone, hnext => by
    have hcons : ∀ log', c.Confirmed key (done ++ [(targetId, filename)]) log' →
        (purgeTargets c.config c.repo key next targets).Safe (c.Allowed pending) log' := fun log' h =>
      purgeTargets_safe targets _ log' h fun log'' error he => hnext log'' error fun hn => by simpa using he hn
    have hskip : ¬ c.Applicable (targetId, filename) →
        (purgeTargets c.config c.repo key next targets).Safe (c.Allowed pending) log := fun hn =>
      hcons log fun t ht ha => by
        rcases List.mem_append.1 ht with ht | ht
        · exact hdone t ht ha
        · rw [List.mem_singleton] at ht
          exact absurd (ht ▸ ha) hn
    unfold purgeTargets
    split
    · rename_i hforeign
      exact hskip fun ha => ha.1.elim hforeign.1 (by simp [hforeign.2])
    split
    · rename_i hempty
      exact hskip fun ha => ha.2 hempty
    split
    · exact hnext log _ fun h => by cases h
    · rename_i target htarget
      refine ⟨trivial, fun (outcome : Str) => ?_⟩
      dsimp only
      split
      · rename_i hok
        refine hcons _ fun t ht ha => ?_
        rcases List.mem_append.1 ht with ht | ht
        · exact hdone.mono (List.subset_append_left ..) t ht ha
        · rw [List.mem_singleton] at ht
          subst ht
          exact ⟨target, outcome, (Config.repoById_eq_some htarget).2, hok, by simp⟩
      · exact hnext _ _ fun h => by cases h

theorem refreshItem_safe {pending : List PendingItem} {item : PendingItem} (hitem : item ∈ pending)
    {rest : RefreshProgram} (hrest : ∀ log, rest.Safe (c.Allowed pending) log) (log : RefreshLog) :
    (c.refreshItem item rest).Safe (c.Allowed pending) log := by
  have hfinish : ∀ log error, (error = none → c.config.nginx.enablePurge = true ∧
      c.Confirmed item.packageKey item.targets log) →
      (c.warmReplacement item error fun error =>
        .request (.finish item.packageKey item.revision error) fun (_ : Unit) => rest).Safe (c.Allowed pending) log := by
    intro log error herror
    unfold warmReplacement
    split
    · rename_i filename hfile
      obtain ⟨hpurge, hconf⟩ := herror rfl
      split
      · refine ⟨⟨item, hitem, rfl, hfile, hpurge, hconf⟩, fun (warmed : Option Bool) =>
          ⟨⟨item, hitem, rfl, rfl, fun hok => ⟨hpurge, hconf.mono (List.subset_append_left ..), ?_⟩⟩, fun _ => hrest _⟩⟩
        intro filename' hfile' _
        rw [hfile, Option.some.injEq] at hfile'
        subst hfile'
        split at hok
        · rename_i hw
          subst hw
          exact ⟨_, List.mem_append_right _ (List.mem_singleton.2 rfl)⟩
        · cases hok
      · rename_i hno
        exact ⟨⟨item, hitem, rfl, rfl, fun _ => ⟨hpurge, hconf, fun _ _ hw => absurd hw hno⟩⟩, fun _ => hrest _⟩
    · rename_i hcase
      refine ⟨⟨item, hitem, rfl, rfl, fun hn => ?_⟩, fun _ => hrest _⟩
      obtain ⟨hpurge, hconf⟩ := herror hn
      exact ⟨hpurge, hconf, fun filename hf => (hcase filename hn hf).elim⟩
  unfold refreshItem
  dsimp only
  split
  · exact hfinish log _ fun h => by cases h
  · rename_i hpurge
    refine purgeTargets_safe item.targets [] log (fun t ht => by simp at ht) fun log' error he => ?_
    exact hfinish log' error fun hn => ⟨by simpa using hpurge, by simpa using he hn⟩

/-- **A refresh requests only what is allowed**, whatever its requests are answered. -/
theorem refreshReplacements_safe (c : RefreshContext) (pending : List PendingItem) (log : RefreshLog) :
    (c.refreshReplacements pending).Safe (c.Allowed pending) log := by
  suffices h : ∀ items : List PendingItem, items ⊆ pending → ∀ log,
      (items.foldr c.refreshItem .done).Safe (c.Allowed pending) log from h pending (List.Subset.refl _) log
  intro items
  induction items with
  | nil => exact fun _ _ => trivial
  | cons item items ih =>
    intro hsub log
    exact refreshItem_safe (hsub List.mem_cons_self) (ih fun x hx => hsub (List.mem_cons_of_mem _ hx)) log

end RefreshContext

/-! ## The system -/

/-- A run of `refresh_replacements`: what it was given, the database it read, its answers so far, and what is left. -/
structure Refresh where
  context : RefreshContext
  read : Database
  log : RefreshLog
  program : RefreshProgram

def Refresh.pending (run : Refresh) : List PendingItem := run.read.getPendingReplacements run.context.repo.id

/-- One database, the revisions drawn so far, and the runs that were started. -/
structure ReplacementSystem where
  db : Database
  issued : List Str
  runs : List Refresh

inductive ReplacementOp where
  | snapshot (s : RepoSnapshot) (m : CheckMeta) (uuid : Str → Str)
  | start (c : RefreshContext)
  | purged (run : Nat) (outcome : Str)
  | warmed (run : Nat) (ok : Option Bool)
  | finish (run : Nat)
  | abort (run : Nat)

namespace ReplacementSystem

def initial : ReplacementSystem := ⟨.empty, [], []⟩

/-- The answer to a run's request. -/
def answer (st : ReplacementSystem) (i : Nat) (run : Refresh) (r : Request) (a : r.Answer) (next : RefreshProgram) :
    ReplacementSystem :=
  { st with runs := st.runs.set i { run with log := run.log ++ [⟨r, a⟩], program := next } }

/-- One step of the system: a snapshot draws fresh revisions, a run starts by reading the queue, an awaited call answers
anything, a replacement is finished in the database, or a run is aborted (by an exception or a restart). -/
def step (st : ReplacementSystem) : ReplacementOp → Option ReplacementSystem
  | .snapshot s m uuid =>
    if ∀ key ∈ s.modifiedKeys st.db, uuid key ∉ st.issued then
      some { st with
        db := (st.db.recordSnapshot s m uuid).1
        issued := st.issued ++ (s.modifiedKeys st.db).map uuid }
    else none
  | .start c =>
    some { st with runs := st.runs ++
      [⟨c, st.db, [], c.refreshReplacements (st.db.getPendingReplacements c.repo.id)⟩] }
  | .purged i outcome =>
    match st.runs[i]? with
    | some run =>
      match run.program with
      | .request (.purge target key filename) next => some (st.answer i run (.purge target key filename) outcome (next outcome))
      | _ => none
    | none => none
  | .warmed i ok =>
    match st.runs[i]? with
    | some run =>
      match run.program with
      | .request (.warm key filename expected) next => some (st.answer i run (.warm key filename expected) ok (next ok))
      | _ => none
    | none => none
  | .finish i =>
    match st.runs[i]? with
    | some run =>
      match run.program with
      | .request (.finish key revision error) next =>
        some { st.answer i run (.finish key revision error) () (next ()) with
          db := st.db.finishReplacement run.context.repo.id key revision error }
      | _ => none
    | none => none
  | .abort i => (st.runs[i]?).map fun run => { st with runs := st.runs.set i { run with program := .done } }

abbrev Reached (ops : List ReplacementOp) (st : ReplacementSystem) : Prop :=
  Run (fun st op st' => step st op = some st') initial ops st

/-! ## The invariant -/

/-- The queued row of a key, by the revision a run has read, is the row it has read. -/
def Reads (st : ReplacementSystem) (run : Refresh) : Prop :=
  ∀ pk row, run.read.pendingReplacements.get pk = some row → row.revision ∈ st.issued ∧
    ∀ row', st.db.pendingReplacements.get pk = some row' → row'.revision = row.revision → row'.targets = row.targets

structure Inv (st : ReplacementSystem) : Prop where
  issued : ∀ pk row, st.db.pendingReplacements.get pk = some row → row.revision ∈ st.issued
  safe : ∀ run ∈ st.runs, run.program.Safe (run.context.Allowed run.pending) run.log
  reads : ∀ run ∈ st.runs, st.Reads run

/-- What a step does to a queued row: nothing, note an error, delete it, or write it anew under a fresh revision. -/
inductive RowStep (st st' : ReplacementSystem) (pk : Str × Str) : Prop
  | same (h : st'.db.pendingReplacements.get pk = st.db.pendingReplacements.get pk)
  | noted (row : PendingRow) (e : Option Str) (h : st.db.pendingReplacements.get pk = some row)
      (h' : st'.db.pendingReplacements.get pk = some { row with lastError := e })
  | deleted (h' : st'.db.pendingReplacements.get pk = none)
  | written (row : PendingRow) (h' : st'.db.pendingReplacements.get pk = some row) (hfresh : row.revision ∉ st.issued)
      (hissued : row.revision ∈ st'.issued)

variable {st st' : ReplacementSystem} {op : ReplacementOp}

/-- The row that a snapshot leaves for a key: written anew for a modified key, else the row that was there. -/
theorem rowStep_snapshot {s : RepoSnapshot} {m : CheckMeta} {uuid : Str → Str}
    (h : step st (.snapshot s m uuid) = some st') (pk : Str × Str) :
    (st'.db.pendingReplacements.get pk = st.db.pendingReplacements.get pk) ∨
    ∃ old filename, pk.1 = s.repoId ∧ st.db.repoPackages.get pk = some old ∧ s.packages.lookup pk.2 = some filename ∧
      st'.db.repoPackages.get pk = some (s.row pk.2 filename) ∧
      st'.db.pendingReplacements.get pk = some (st.db.pendingRow s uuid pk.2 old filename) ∧
      uuid pk.2 ∉ st.issued ∧ uuid pk.2 ∈ st'.issued := by
  unfold step at h
  dsimp only at h
  split at h
  · rename_i hfresh
    cases h
    obtain ⟨r, k⟩ := pk
    dsimp only
    rw [Database.get_pendingReplacements_recordSnapshot]
    by_cases hm : r = s.repoId ∧ k ∈ s.modifiedKeys st.db
    · obtain ⟨rfl, hk⟩ := hm
      obtain ⟨filename, old, hf, ho, -⟩ := RepoSnapshot.mem_modifiedKeys.1 hk
      refine Or.inr ⟨old, filename, rfl, ho, hf, ?_, ?_, hfresh k hk, ?_⟩
      · rw [Database.previous_recordSnapshot, hf]; rfl
      · rw [if_pos ⟨rfl, hk⟩, ho, hf]; rfl
      · exact List.mem_append_right _ (List.mem_map_of_mem hk)
    · exact Or.inl (if_neg hm)
  · cases h

/-- The run that a finishing step resumes, and the database it leaves. -/
theorem step_finish {i : Nat} (h : step st (.finish i) = some st') : ∃ run key revision error next,
    st.runs[i]? = some run ∧ run.program = .request (.finish key revision error) next ∧
    st'.db = st.db.finishReplacement run.context.repo.id key revision error ∧ st'.issued = st.issued ∧
    st'.runs = st.runs.set i { run with log := run.log ++ [⟨.finish key revision error, ()⟩], program := next () } := by
  unfold step at h
  dsimp only at h
  split at h
  · rename_i run hrun
    split at h
    · rename_i key revision error next hp
      cases h
      exact ⟨run, key, revision, error, next, hrun, hp, rfl, rfl, rfl⟩
    · cases h
  · cases h

/-- **Every other step** leaves the queue; it adds a run that has read the database, or gives a run an answer to what it
asked, or stops it. -/
theorem step_frame (h : step st op = some st') (hs : ∀ s m uuid, op ≠ .snapshot s m uuid) (hf : ∀ i, op ≠ .finish i) :
    st'.db = st.db ∧ st'.issued = st.issued := by
  cases op with
  | snapshot s m uuid => exact absurd rfl (hs s m uuid)
  | finish i => exact absurd rfl (hf i)
  | start c => cases h; exact ⟨rfl, rfl⟩
  | purged i outcome =>
    unfold step at h
    dsimp only at h
    split at h
    · split at h
      · cases h; exact ⟨rfl, rfl⟩
      · cases h
    · cases h
  | warmed i ok =>
    unfold step at h
    dsimp only at h
    split at h
    · split at h
      · cases h; exact ⟨rfl, rfl⟩
      · cases h
    · cases h
  | abort i =>
    obtain ⟨run, -, rfl⟩ := Option.map_eq_some_iff.1 h
    exact ⟨rfl, rfl⟩

theorem rowStep_of_step (h : step st op = some st') (pk : Str × Str) : RowStep st st' pk := by
  by_cases hs : ∃ s m uuid, op = .snapshot s m uuid
  · obtain ⟨s, m, uuid, rfl⟩ := hs
    rcases rowStep_snapshot h pk with hsame | ⟨old, filename, -, -, -, -, hrow, hfresh, hissued⟩
    · exact .same hsame
    · exact .written _ hrow hfresh hissued
  by_cases hf : ∃ i, op = .finish i
  · obtain ⟨i, rfl⟩ := hf
    obtain ⟨run, key, revision, error, next, -, -, hdb, -, -⟩ := step_finish h
    have hget := @Database.get_finishReplacement st.db run.context.repo.id key revision error pk
    rw [← hdb] at hget
    by_cases hpk : pk = (run.context.repo.id, key)
    · rw [if_pos hpk] at hget
      cases hrow : st.db.pendingReplacements.get pk with
      | none => exact .same (by rw [hget, hrow]; rfl)
      | some row =>
        rw [hrow, Option.bind_some] at hget
        split at hget
        · exact .same (by rw [hget, hrow])
        · cases error with
          | none => exact .deleted hget
          | some e => exact .noted row (some e) hrow hget
    · exact .same (hget.trans (if_neg hpk))
  · obtain ⟨hdb, -⟩ := step_frame h (fun s m uuid e => hs ⟨s, m, uuid, e⟩) (fun i e => hf ⟨i, e⟩)
    exact .same (by rw [hdb])

theorem issued_of_step (h : step st op = some st') : st.issued ⊆ st'.issued := by
  by_cases hs : ∃ s m uuid, op = .snapshot s m uuid
  · obtain ⟨s, m, uuid, rfl⟩ := hs
    unfold step at h
    dsimp only at h
    split at h
    · cases h; exact List.subset_append_left ..
    · cases h
  by_cases hf : ∃ i, op = .finish i
  · obtain ⟨i, rfl⟩ := hf
    obtain ⟨-, -, -, -, -, -, -, -, hi, -⟩ := step_finish h
    rw [hi]
    exact List.Subset.refl _
  · rw [(step_frame h (fun s m uuid e => hs ⟨s, m, uuid, e⟩) (fun i e => hf ⟨i, e⟩)).2]
    exact List.Subset.refl _

/-- The run is one of the state's runs, which may have moved on, safely if it was safe. -/
def MovedOn (st : ReplacementSystem) (run' : Refresh) : Prop :=
  ∃ run ∈ st.runs, run'.context = run.context ∧ run'.read = run.read ∧
    (run.program.Safe (run.context.Allowed run.pending) run.log →
      run'.program.Safe (run'.context.Allowed run'.pending) run'.log)

/-- A run after a step is a run before it, or one that has just read the database. -/
theorem run_of_step (h : step st op = some st') {run' : Refresh} (hr : run' ∈ st'.runs) :
    MovedOn st run' ∨ (run'.read = st.db ∧ st'.db = st.db ∧ st'.issued = st.issued ∧
      run'.program.Safe (run'.context.Allowed run'.pending) run'.log) := by
  have hset : ∀ (i : Nat) (new : Refresh), run' ∈ st.runs.set i new → run' ∈ st.runs ∨ run' = new :=
    fun i new hm => List.mem_or_eq_of_mem_set hm
  have hold : run' ∈ st.runs → MovedOn st run' := fun hm => ⟨run', hm, rfl, rfl, id⟩
  cases op with
  | snapshot s m uuid =>
    unfold step at h
    dsimp only at h
    split at h
    · cases h; exact Or.inl (hold hr)
    · cases h
  | start c =>
    cases h
    rcases List.mem_append.1 hr with hr | hr
    · exact Or.inl (hold hr)
    · rw [List.mem_singleton] at hr
      subst hr
      exact Or.inr ⟨rfl, rfl, rfl, RefreshContext.refreshReplacements_safe ..⟩
  | purged i outcome =>
    unfold step at h
    dsimp only at h
    split at h
    · rename_i run hrun
      split at h
      · rename_i hp
        cases h
        rcases hset i _ hr with hr | rfl
        · exact Or.inl (hold hr)
        · exact Or.inl ⟨run, List.mem_of_getElem? hrun, rfl, rfl, fun hsafe => by rw [hp] at hsafe; exact hsafe.answer _⟩
      · cases h
    · cases h
  | warmed i ok =>
    unfold step at h
    dsimp only at h
    split at h
    · rename_i run hrun
      split at h
      · rename_i hp
        cases h
        rcases hset i _ hr with hr | rfl
        · exact Or.inl (hold hr)
        · exact Or.inl ⟨run, List.mem_of_getElem? hrun, rfl, rfl, fun hsafe => by rw [hp] at hsafe; exact hsafe.answer _⟩
      · cases h
    · cases h
  | finish i =>
    obtain ⟨run, key, revision, error, next, hrun, hp, -, -, hruns⟩ := step_finish h
    rw [hruns] at hr
    rcases hset i _ hr with hr | rfl
    · exact Or.inl (hold hr)
    · exact Or.inl ⟨run, List.mem_of_getElem? hrun, rfl, rfl, fun hsafe => by rw [hp] at hsafe; exact hsafe.answer _⟩
  | abort i =>
    obtain ⟨run, hrun, rfl⟩ := Option.map_eq_some_iff.1 h
    rcases hset i _ hr with hr | rfl
    · exact Or.inl (hold hr)
    · exact Or.inl ⟨run, List.mem_of_getElem? hrun, rfl, rfl, fun _ => trivial⟩

theorem inv_step (hinv : st.Inv) (h : step st op = some st') : st'.Inv := by
  have hsub := issued_of_step h
  constructor
  · intro pk row hrow
    rcases rowStep_of_step h pk with hsame | ⟨old, e, hold, hnew⟩ | hgone | ⟨row', hnew, -, hissued⟩
    · exact hsub (hinv.issued pk row (hsame ▸ hrow))
    · rw [hnew, Option.some.injEq] at hrow
      subst hrow
      exact hsub (hinv.issued pk old hold)
    · rw [hgone] at hrow; cases hrow
    · rw [hnew, Option.some.injEq] at hrow
      exact hrow ▸ hissued
  · intro run' hr
    rcases run_of_step h hr with ⟨run, hm, -, -, hsafe⟩ | ⟨-, -, -, hsafe⟩
    · exact hsafe (hinv.safe run hm)
    · exact hsafe
  · intro run' hr pk row hrow
    rcases run_of_step h hr with ⟨run, hm, -, hread, -⟩ | ⟨hread, hdb, hissued, -⟩
    · rw [hread] at hrow
      obtain ⟨hi, hsame⟩ := hinv.reads run hm pk row hrow
      refine ⟨hsub hi, fun row' hrow' hrev => ?_⟩
      rcases rowStep_of_step h pk with hkept | ⟨old, e, hold, hnew⟩ | hgone | ⟨row'', hnew, hfresh, -⟩
      · exact hsame row' (hkept ▸ hrow') hrev
      · rw [hnew, Option.some.injEq] at hrow'
        subst hrow'
        exact hsame old hold hrev
      · rw [hgone] at hrow'; cases hrow'
      · rw [hnew, Option.some.injEq] at hrow'
        subst hrow'
        exact absurd (hrev ▸ hi) hfresh
    · rw [hread] at hrow
      refine ⟨hissued ▸ hinv.issued pk row hrow, fun row' hrow' _ => ?_⟩
      rw [hdb, hrow, Option.some.injEq] at hrow'
      rw [hrow']

theorem inv_initial : initial.Inv where
  issued := fun _ _ h => by cases h
  safe := fun _ h => by cases h
  reads := fun _ h => by cases h

theorem inv_of_reached {ops : List ReplacementOp} (h : Reached ops st) : st.Inv :=
  h.invariant Inv (fun _ _ _ hinv hs => inv_step hinv hs) inv_initial

end ReplacementSystem

/-! ## What the queue guarantees -/

/-- The run has done what finishing `row` takes: with purging enabled it read the row under its present revision, every
applicable target of the row was answered `purged` or `not_cached` since, and if the run found the key listed under a
file name, prefetched, demanded and allowed, its warm was reported successful. -/
def Refresh.Completed (run : Refresh) (key : Str) (row : PendingRow) : Prop :=
  run.context.config.nginx.enablePurge = true ∧
  (∃ row₀, run.read.pendingReplacements.get (run.context.repo.id, key) = some row₀ ∧ row₀.revision = row.revision) ∧
  run.context.Confirmed key row.targets run.log ∧
  ∀ p, run.read.repoPackages.get (run.context.repo.id, key) = some p → p.filename ≠ [] →
    run.context.repo.prefetch = true → key ∈ run.context.interested → run.context.allows key = true →
    RefreshContext.WarmedOk key p.filename run.log

namespace ReplacementSystem
variable {st st' : ReplacementSystem} {op : ReplacementOp}

/-- The item a run finishes or warms is a row it has read. -/
theorem read_of_item {run : Refresh} {item : PendingItem} (h : item ∈ run.pending) :
    ∃ row₀, run.read.pendingReplacements.get (run.context.repo.id, item.packageKey) = some row₀ ∧
      item.targets = row₀.targets ∧ item.revision = row₀.revision ∧ item.filename =
        (run.read.repoPackages.get (run.context.repo.id, item.packageKey)).map PackageRow.filename := by
  obtain ⟨row₀, hrow, ht, hr, hf, -, -⟩ := Database.mem_getPendingReplacements.1 h
  exact ⟨row₀, hrow, ht, hr, hf⟩

/-- A queued row disappears only when a run that completed it finishes it. -/
theorem removed_completed (hinv : st.Inv) (h : step st op = some st') {pk : Str × Str} {row : PendingRow}
    (hrow : st.db.pendingReplacements.get pk = some row) (hgone : st'.db.pendingReplacements.get pk = none) :
    ∃ i run, op = .finish i ∧ st.runs[i]? = some run ∧ run.context.repo.id = pk.1 ∧ run.Completed pk.2 row := by
  by_cases hs : ∃ s m uuid, op = .snapshot s m uuid
  · obtain ⟨s, m, uuid, rfl⟩ := hs
    rcases rowStep_snapshot h pk with hsame | ⟨_, _, -, -, -, -, hnew, -⟩
    · rw [hsame, hrow] at hgone; cases hgone
    · rw [hnew] at hgone; cases hgone
  by_cases hf : ∃ i, op = .finish i
  swap
  · rw [(step_frame h (fun s m uuid e => hs ⟨s, m, uuid, e⟩) (fun i e => hf ⟨i, e⟩)).1, hrow] at hgone
    cases hgone
  obtain ⟨i, rfl⟩ := hf
  obtain ⟨run, key, revision, error, next, hrun, hp, hdb, -, -⟩ := step_finish h
  rw [hdb, Database.get_finishReplacement] at hgone
  by_cases hpk : pk = (run.context.repo.id, key)
  swap
  · rw [if_neg hpk, hrow] at hgone; cases hgone
  subst hpk
  rw [if_pos rfl, hrow, Option.bind_some] at hgone
  split at hgone
  · cases hgone
  rename_i hrev
  rw [not_not] at hrev
  obtain rfl : error = none := Option.map_eq_none_iff.1 hgone
  have hmem := List.mem_of_getElem? hrun
  have hsafe := hinv.safe run hmem
  rw [hp] at hsafe
  obtain ⟨item, hitem, rfl, hr, hdone⟩ := hsafe.allowed
  obtain ⟨hpurge, hconf, hwarm⟩ := hdone rfl
  obtain ⟨row₀, hrow₀, ht, hr₀, hfile⟩ := read_of_item hitem
  have htargets : row.targets = row₀.targets :=
    (hinv.reads run hmem _ row₀ hrow₀).2 row hrow (by rw [hrev, ← hr, hr₀])
  refine ⟨i, run, rfl, hrun, rfl, hpurge, ⟨row₀, hrow₀, by rw [hrev, ← hr, hr₀]⟩, by rw [htargets, ← ht]; exact hconf,
    fun p hpkg hne hpre hint hallow => ?_⟩
  rw [hpkg, Option.map_some] at hfile
  refine hwarm p.filename hfile ?_
  simp [RefreshContext.toWarm, hfile, hne, hpre, hint, hallow]

/-- **What the replacement queue guarantees** in a state: a row is removed only by a run that completed it, a warm is
called only once the applicable targets are confirmed, a row newer than what a run has read survives that run's finish,
and a row that is written anew keeps its targets and gains both paths and the shared path of the old bytes. -/
structure Guarded (st : ReplacementSystem) : Prop where
  removed : ∀ op st', step st op = some st' → ∀ pk row, st.db.pendingReplacements.get pk = some row →
    st'.db.pendingReplacements.get pk = none →
    ∃ i run, op = .finish i ∧ st.runs[i]? = some run ∧ run.context.repo.id = pk.1 ∧ run.Completed pk.2 row
  warmed : ∀ run ∈ st.runs, ∀ key filename expectedHash next,
    run.program = .request (.warm key filename expectedHash) next →
    ∃ row₀, run.read.pendingReplacements.get (run.context.repo.id, key) = some row₀ ∧
      run.context.Confirmed key row₀.targets run.log
  newer : ∀ i run st', st.runs[i]? = some run → step st (.finish i) = some st' →
    ∀ key row, st.db.pendingReplacements.get (run.context.repo.id, key) = some row →
    (∀ row₀, run.read.pendingReplacements.get (run.context.repo.id, key) = some row₀ → row₀.revision ≠ row.revision) →
    st'.db.pendingReplacements.get (run.context.repo.id, key) = some row
  targets : ∀ op st', step st op = some st' → ∀ pk row row', st.db.pendingReplacements.get pk = some row →
    st'.db.pendingReplacements.get pk = some row' → row.targets ⊆ row'.targets ∧ (row'.revision ≠ row.revision →
      ∃ old new, st.db.repoPackages.get pk = some old ∧ st'.db.repoPackages.get pk = some new ∧
        (pk.1, old.filename) ∈ row'.targets ∧ (pk.1, new.filename) ∈ row'.targets ∧
        ∀ owner, known old.contentHash = true → st.db.sharedOwner old.filename old.contentHash = some owner →
          owner ≠ [] → (owner, old.filename) ∈ row'.targets)

/-- A snapshot's row for a key has the queued targets, both paths, and the shared path. -/
theorem targets_kept (h : step st op = some st') {pk : Str × Str} {row row' : PendingRow}
    (hrow : st.db.pendingReplacements.get pk = some row) (hrow' : st'.db.pendingReplacements.get pk = some row') :
    row.targets ⊆ row'.targets ∧ (row'.revision ≠ row.revision →
      ∃ old new, st.db.repoPackages.get pk = some old ∧ st'.db.repoPackages.get pk = some new ∧
        (pk.1, old.filename) ∈ row'.targets ∧ (pk.1, new.filename) ∈ row'.targets ∧
        ∀ owner, known old.contentHash = true → st.db.sharedOwner old.filename old.contentHash = some owner →
          owner ≠ [] → (owner, old.filename) ∈ row'.targets) := by
  by_cases hs : ∃ s m uuid, op = .snapshot s m uuid
  · obtain ⟨s, m, uuid, rfl⟩ := hs
    rcases rowStep_snapshot h pk with hsame | ⟨old, filename, hid, hold, -, hpkg, hnew, -⟩
    · rw [hsame, hrow, Option.some.injEq] at hrow'
      subst hrow'
      exact ⟨List.Subset.refl _, fun hne => absurd rfl hne⟩
    · rw [hnew, Option.some.injEq] at hrow'
      subst hrow'
      have hq : st.db.pendingReplacements.get (s.repoId, pk.2) = some row := by rw [← hid]; exact hrow
      have hmem := fun t => @Database.mem_replacementTargets st.db s pk.2 filename old t
      refine ⟨fun t ht => (hmem t).2 (Or.inl (by rw [hq]; exact ht)), fun _ => ⟨old, _, hold, hpkg, ?_, ?_, ?_⟩⟩
      · exact (hmem _).2 (Or.inr (Or.inl (by rw [hid])))
      · exact (hmem _).2 (Or.inr (Or.inr (Or.inl (by rw [hid]; rfl))))
      · exact fun owner hk ho hne => (hmem _).2 (Or.inr (Or.inr (Or.inr ⟨hk, owner, ho, hne, rfl⟩)))
  · rcases rowStep_of_step h pk with hsame | ⟨old, e, hold, hnew⟩ | hgone | ⟨row'', hnew, hfresh, hissued⟩
    · rw [hsame, hrow, Option.some.injEq] at hrow'
      subst hrow'
      exact ⟨List.Subset.refl _, fun hne => absurd rfl hne⟩
    · rw [hold, Option.some.injEq] at hrow
      rw [hnew, Option.some.injEq] at hrow'
      subst hrow hrow'
      exact ⟨List.Subset.refl _, fun hne => absurd rfl hne⟩
    · rw [hgone] at hrow'; cases hrow'
    · have hi : st'.issued = st.issued := by
        by_cases hf : ∃ i, op = .finish i
        · obtain ⟨i, rfl⟩ := hf
          obtain ⟨-, -, -, -, -, -, -, -, hi, -⟩ := step_finish h
          exact hi
        · exact (step_frame h (fun s m uuid e => hs ⟨s, m, uuid, e⟩) (fun i e => hf ⟨i, e⟩)).2
      exact absurd (hi ▸ hissued) hfresh

/-- **The replacement queue is safe** in every state that snapshots and any number of concurrent refreshes reach,
whatever their purges and warms answer. -/
theorem replacements_run {ops : List ReplacementOp} (h : Reached ops st) : st.Guarded := by
  have hinv := inv_of_reached h
  constructor
  · exact fun op st' hs pk row hrow hgone => removed_completed hinv hs hrow hgone
  · intro run hr key filename expectedHash next hp
    have hsafe := hinv.safe run hr
    rw [hp] at hsafe
    obtain ⟨item, hitem, rfl, -, -, hconf⟩ := hsafe.allowed
    obtain ⟨row₀, hrow₀, ht, -⟩ := read_of_item hitem
    exact ⟨row₀, hrow₀, ht ▸ hconf⟩
  · intro i run st' hrun hs key row hrow hnew
    obtain ⟨run', key', revision, error, next, hrun', hp, hdb, -, -⟩ := step_finish hs
    obtain rfl : run' = run := Option.some.inj (hrun'.symm.trans hrun)
    rw [hdb, Database.get_finishReplacement]
    by_cases hk : key = key'
    · subst hk
      have hsafe := hinv.safe run' (List.mem_of_getElem? hrun')
      rw [hp] at hsafe
      obtain ⟨item, hitem, rfl, hr, -⟩ := hsafe.allowed
      obtain ⟨row₀, hrow₀, -, hr₀, -⟩ := read_of_item hitem
      have hne : row.revision ≠ revision := fun e => hnew row₀ hrow₀ (by rw [e, ← hr, hr₀])
      rw [if_pos rfl, hrow, Option.bind_some, if_pos hne]
    · rw [if_neg fun e => hk (Prod.mk.inj e).2, hrow]
  · exact fun op st' hs pk row row' hrow hrow' => targets_kept hs hrow hrow'

def purgingConfig : Config where
  checkInterval := 3600
  cacheBaseUrl := "http://127.0.0.1:8080".toList
  repos := [plainRepo .dnf "r" "http://h/x"]
  nginx := { enablePurge := true }
  idsNodup := by decide
  versionOk := by decide

/-- A package is replaced, a run purges it, fails to warm it and leaves it queued; the next run finishes it. -/
def retriedRun : List ReplacementOp :=
  let start := .start ⟨purgingConfig, plainRepo .dnf "r" "http://h/x", ["k".toList], fun _ => true⟩
  [.snapshot (.listing "r" [("k", "f", "A")]) { now := [] } (fun _ => "0".toList),
   .snapshot (.listing "r" [("k", "f", "B")]) { now := [] } (fun _ => "1".toList),
   start, .purged 0 "purged".toList, .warmed 0 none, .finish 0,
   start, .purged 1 "not_cached".toList, .warmed 1 (some true), .finish 1]

def retried : ReplacementSystem := (retriedRun.foldlM step initial).getD initial

example : retried.db.pendingReplacements.get ("r".toList, "k".toList) = none := by decide

theorem replacements_run_retried : retried.Guarded := by
  have h : Reached retriedRun retried := run_iff_foldlM.2 rfl
  exact replacements_run h

end ReplacementSystem
end RepoWatch
