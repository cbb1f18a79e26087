import RepoWatch.Slots
import RepoWatch.Status
/-!
# Dispatcher — one task per repository

A tick reaps the finished tasks, cancels those of removed repositories and starts the due ones, all in one dictionary that
tasks leave only when they are done.  A task is known by its number in the order of creation, so that two tasks of one
repository are two numbers.  `RepoDispatcher.Inv` says that every unfinished task is the one its repository is tracked by;
each event keeps it (`Inv.step`).
-/
namespace RepoWatch

open Lib

/-! ## Tasks -/

/-- What `check_repo` comes to. -/
inductive CheckOutcome where
  | checked
  | sqliteError (message : Str)
  | failed
  | cancelled

inductive TaskOutcome where
  | result (ok : Bool)
  | cancelled
  | error (message : Str)
  deriving DecidableEq

/-- `_check_one`: only an SQLite error escapes. -/
def checkOne : CheckOutcome → TaskOutcome
  | .checked => .result true
  | .sqliteError message => .error message
  | .failed => .result false
  | .cancelled => .cancelled

structure SchedulerConfig where
  config : Config
  checkConcurrency : Int
  deriving DecidableEq

/-- A task of `_check_one`, with the cancellations that `reconcile` and `close` requested and those in force that others
did, a timeout inside the task for one. -/
structure RepoTask where
  config : SchedulerConfig
  repo : RepoConfig
  outcome : Option TaskOutcome := none
  requested : Nat := 0
  others : Nat := 0
  deriving DecidableEq

namespace RepoTask

def done (task : RepoTask) : Bool := task.outcome.isSome

def cancelling (task : RepoTask) : Nat := task.requested + task.others

def cancel (task : RepoTask) : RepoTask := if task.done then task else { task with requested := task.requested + 1 }

/-- The guarded cancellation of `reconcile` and `close`. -/
def cancelOnce (task : RepoTask) : RepoTask := if task.cancelling = 0 then task.cancel else task

def finish (outcome : CheckOutcome) (task : RepoTask) : RepoTask := { task with outcome := some (checkOne outcome) }

def interrupt (task : RepoTask) : RepoTask := if task.done then task else { task with others := task.others + 1 }

def uncancel (task : RepoTask) : RepoTask := { task with others := task.others - 1 }

end RepoTask

/-! ## Due repositories -/

/-- What a tick reads: the summaries, or the error of the database, and the clock at each repository. -/
structure DueReads where
  summaries : Except Str (Dict Str RepoSummary)
  now : Str → Int

section
variable (fromisoformat : Str → Option Int)

/-- `_is_due`, in microseconds of the clock; `none` where it raises. -/
def isDue (now : Int) (config : Config) (repo : RepoConfig) (summaries : Dict Str RepoSummary) : Option Bool :=
  match (summaries.lookup repo.id).bind RepoSummary.lastCheck with
  | none => some true
  | some lastCheck => (fromisoformat lastCheck).map fun checked =>
      decide (now - checked ≥ config.effectiveCheckInterval repo * 1000000)

/-- `_due_repositories`. -/
def dueRepositories (reads : DueReads) (config : Config) (repos : List RepoConfig) :
    Except Str (List RepoConfig × List Str) :=
  reads.summaries.map fun summaries =>
    let check := fun repo : RepoConfig => isDue fromisoformat (reads.now repo.id) config repo summaries
    (repos.filter fun repo => check repo = some true, (repos.filter fun repo => (check repo).isNone).map fun repo => repo.id)

end

/-! ## The dispatcher -/

inductive ReconcileError where
  | sqlite (message : Str)
  | value (message : Str)
  deriving DecidableEq

/-- `RepoDispatcher`, every task it ever created, and the tasks that `close` waits for. -/
structure RepoDispatcher where
  tasks : Dict Str Nat
  slots : Option SlotSystem
  automaticWarmRepos : Dict Str RepoConfig
  created : List RepoTask
  closing : Option (List Nat)

inductive DispatcherEvent where
  | reconcile (config : SchedulerConfig) (reads : DueReads)
  | finish (t : Nat) (outcome : CheckOutcome)
  | interrupt (t : Nat)
  | uncancel (t : Nat)
  | slots (e : SlotEvent)
  | close
  | drained (cancelled : Bool)

namespace RepoDispatcher

def new : RepoDispatcher := ⟨.empty, none, .empty, [], none⟩

/-- `_reap`, over the items there were when it began; with the error of a task where it raises one. -/
def reap (created : List RepoTask) : List (Str × Nat) → Dict Str Nat → Dict Str Nat × Option Str
  | [], tasks => (tasks, none)
  | (repoId, t) :: items, tasks =>
    match (created[t]?).bind RepoTask.outcome with
    | none => reap created items tasks
    | some (.error message) => (tasks.delete repoId, some message)
    | some _ => reap created items (tasks.delete repoId)

def resizeSlots (slots : Option SlotSystem) (size : Int) : Except Str SlotSystem :=
  match slots with
  | none => (RepoSlots.new size).map fun pool => ⟨pool, []⟩
  | some slots => (slots.pool.resize size).map fun pool => { slots with pool := pool }

def cancelAll (created : List RepoTask) (ts : List Nat) : List RepoTask :=
  ts.foldl (fun created t => created.modify t RepoTask.cancelOnce) created

/-- The tracked tasks whose repository is gone. -/
def removed (self : RepoDispatcher) (config : SchedulerConfig) : List Nat :=
  (self.tasks.rows.filter fun item => item.1 ∉ config.config.repos.map fun repo => repo.id).map Prod.snd

def startTask (self : RepoDispatcher) (config : SchedulerConfig) (repo : RepoConfig) : RepoDispatcher :=
  { self with
    tasks := self.tasks.set repo.id self.created.length
    created := self.created ++ [{ config := config, repo := repo }] }

def untracked (self : RepoDispatcher) (config : SchedulerConfig) : List RepoConfig :=
  config.config.repos.filter fun repo => (self.tasks.lookup repo.id).isNone

def reaped (self : RepoDispatcher) (config : SchedulerConfig) : RepoDispatcher :=
  { self with
    automaticWarmRepos := .ofPairs (config.config.repos.map fun repo => (repo.id, repo))
    tasks := (reap self.created self.tasks.rows self.tasks).1 }

def cancelRemoved (self : RepoDispatcher) (config : SchedulerConfig) : RepoDispatcher :=
  { self with created := cancelAll self.created (self.removed config) }

def startAll (self : RepoDispatcher) (config : SchedulerConfig) (due : List RepoConfig) : RepoDispatcher :=
  due.foldl (fun self repo => self.startTask config repo) self

def reconcile (fromisoformat : Str → Option Int) (self : RepoDispatcher) (config : SchedulerConfig) (reads : DueReads) :
    RepoDispatcher × Except ReconcileError Unit :=
  let error := (reap self.created self.tasks.rows self.tasks).2
  let self := self.reaped config
  match error with
  | some message => (self, .error (.sqlite message))
  | none =>
    match resizeSlots self.slots config.checkConcurrency with
    | .error message => (self, .error (.value message))
    | .ok slots =>
      let self := { self with slots := some slots }.cancelRemoved config
      match dueRepositories fromisoformat reads config.config (self.untracked config) with
      | .error message => (self, .error (.sqlite message))
      | .ok (due, _) => (self.startAll config due, .ok ())

/-- `close`, up to where it waits. -/
def close (self : RepoDispatcher) : RepoDispatcher :=
  let tasks := self.tasks.rows.map Prod.snd
  { self with created := cancelAll self.created tasks, closing := some tasks }

def modifyTask (self : RepoDispatcher) (t : Nat) (f : RepoTask → RepoTask) : RepoDispatcher :=
  { self with created := self.created.modify t f }

/-- One uninterrupted piece of work.  `close` waits until all its tasks are done; it forgets them, unless it was cancelled
itself. -/
def step (fromisoformat : Str → Option Int) (self : RepoDispatcher) : DispatcherEvent → Option RepoDispatcher
  | .reconcile config reads => if self.closing.isNone then some (self.reconcile fromisoformat config reads).1 else none
  | .finish t outcome =>
    if (self.created[t]?).any fun task => !task.done then some (self.modifyTask t (.finish outcome)) else none
  | .interrupt t => some (self.modifyTask t .interrupt)
  | .uncancel t => some (self.modifyTask t .uncancel)
  | .slots e => (self.slots.bind fun slots => slots.step e).map fun slots => { self with slots := some slots }
  | .close => if self.closing.isNone then some self.close else none
  | .drained cancelled =>
    match self.closing with
    | none => none
    | some ts =>
      if ts.all fun t => (self.created[t]?).all RepoTask.done then
        some { self with closing := none, tasks := if cancelled then self.tasks else .empty }
      else none

abbrev Reached (fromisoformat : Str → Option Int) (events : List DispatcherEvent) (self : RepoDispatcher) : Prop :=
  Run (fun self e self' => step fromisoformat self e = some self') new events self

/-- A task that was created and is not done. -/
def Live (self : RepoDispatcher) (t : Nat) (task : RepoTask) : Prop := self.created[t]? = some task ∧ task.outcome = none

/-! ## Cancelling once -/

end RepoDispatcher

namespace RepoTask
variable {task : RepoTask}

/-- What a cancellation leaves as it was. -/
structure SameWork (task task' : RepoTask) : Prop where
  repo : task'.repo = task.repo
  outcome : task'.outcome = task.outcome
  others : task'.others = task.others

theorem sameWork_cancelOnce (task : RepoTask) : SameWork task task.cancelOnce := by
  unfold cancelOnce cancel
  split <;> (try split) <;> exact ⟨rfl, rfl, rfl⟩

theorem cancelOnce_of_cancelling (h : task.cancelling ≠ 0) : task.cancelOnce = task := if_neg h

theorem cancelOnce_of_done (h : task.done = true) : task.cancelOnce = task := by
  unfold cancelOnce cancel
  rw [if_pos h, ite_self]

theorem cancelling_cancelOnce (h : task.outcome = none) : 0 < task.cancelOnce.cancelling := by
  by_cases hc : task.cancelling = 0
  · unfold cancelOnce cancel done
    rw [if_pos hc, h, if_neg (by exact Bool.false_ne_true)]
    unfold cancelling
    dsimp only
    omega
  · rw [cancelOnce_of_cancelling hc]
    omega

/-- **Cancelling again does nothing.** -/
theorem cancelOnce_cancelOnce (task : RepoTask) : task.cancelOnce.cancelOnce = task.cancelOnce := by
  by_cases h : task.outcome = none
  · exact cancelOnce_of_cancelling (Nat.ne_of_gt (cancelling_cancelOnce h))
  · refine cancelOnce_of_done ?_
    rw [done, (sameWork_cancelOnce task).outcome]
    exact Option.isSome_iff_ne_none.2 h

theorem requested_cancelOnce (h : task.requested ≤ 1) : task.cancelOnce.requested ≤ 1 := by
  by_cases hc : task.cancelling = 0
  · unfold cancelOnce cancel
    rw [if_pos hc]
    unfold cancelling at hc
    split
    · exact h
    · dsimp only
      omega
  · rwa [cancelOnce_of_cancelling hc]

end RepoTask

namespace RepoDispatcher

theorem getElem?_cancelAll (t : Nat) : ∀ (ts : List Nat) (created : List RepoTask),
    (cancelAll created ts)[t]? = (created[t]?).map fun task => if t ∈ ts then task.cancelOnce else task
  | [], created => by simp [cancelAll]
  | u :: ts, created => by
    have ih := getElem?_cancelAll t ts (created.modify u RepoTask.cancelOnce)
    unfold cancelAll at ih ⊢
    rw [List.foldl_cons, ih, List.getElem?_modify, Option.map_eq_map, Option.map_map]
    congr 1
    funext task
    by_cases hu : u = t
    · subst hu
      simp only [Function.comp_apply, if_true, List.mem_cons, true_or]
      split
      · exact task.cancelOnce_cancelOnce
      · rfl
    · simp [hu, Ne.symm hu]

theorem length_cancelAll : ∀ (ts : List Nat) (created : List RepoTask), (cancelAll created ts).length = created.length
  | [], _ => rfl
  | u :: ts, created => by
    have ih := length_cancelAll ts (created.modify u RepoTask.cancelOnce)
    rw [List.length_modify] at ih
    exact ih

/-! ## Reaping -/

variable {fromisoformat : Str → Option Int} {self self' : RepoDispatcher} {created : List RepoTask}
  {items : List (Str × Nat)} {tasks : Dict Str Nat}

def Finished (created : List RepoTask) (t : Nat) : Prop := (created[t]?).bind RepoTask.outcome ≠ none

/-- **What reaping keeps**: it forgets items of finished tasks only. -/
theorem lookup_reap (created : List RepoTask) (id : Str) : ∀ (items : List (Str × Nat)) (tasks : Dict Str Nat),
    (reap created items tasks).1.lookup id = tasks.lookup id ∨
      (reap created items tasks).1.lookup id = none ∧ ∃ t, (id, t) ∈ items ∧ Finished created t
  | [], tasks => Or.inl rfl
  | (repoId, u) :: items, tasks => by
    have later : ∀ tasks' : Dict Str Nat, tasks'.lookup id = tasks.lookup id →
        (reap created items tasks').1.lookup id = tasks.lookup id ∨ (reap created items tasks').1.lookup id = none ∧
          ∃ t, (id, t) ∈ (repoId, u) :: items ∧ Finished created t := by
      intro tasks' hsame
      rcases lookup_reap created id items tasks' with h | ⟨h, t, ht, hfinished⟩
      · exact Or.inl (h.trans hsame)
      · exact Or.inr ⟨h, t, List.mem_cons_of_mem _ ht, hfinished⟩
    unfold reap
    split
    · exact later tasks rfl
    · rename_i message hfailed
      by_cases hid : id = repoId
      · subst hid
        exact Or.inr ⟨(Dict.lookup_delete _ _ _).trans (if_pos rfl), u, List.mem_cons_self, by simp [Finished, hfailed]⟩
      · exact Or.inl ((Dict.lookup_delete _ _ _).trans (if_neg hid))
    · rename_i outcome _ hdone
      by_cases hid : id = repoId
      · subst hid
        have hnone : Dict.lookup (tasks.delete id) id = none := (Dict.lookup_delete _ _ _).trans (if_pos rfl)
        refine Or.inr ⟨?_, u, List.mem_cons_self, by simp [Finished, hdone]⟩
        rcases lookup_reap created id items (tasks.delete id) with h | h
        · exact h.trans hnone
        · exact h.1
      · exact later _ ((Dict.lookup_delete _ _ _).trans (if_neg hid))

/-- An item that is forgotten stays forgotten. -/
theorem lookup_reap_eq_none {id : Str} (h : tasks.lookup id = none) : (reap created items tasks).1.lookup id = none := by
  rcases lookup_reap created id items tasks with hsame | hnone
  · exact hsame.trans h
  · exact hnone.1

/-- **Without an error** every finished item is forgotten, and none of them carries an error. -/
theorem reap_eq_none : ∀ {items : List (Str × Nat)} {tasks : Dict Str Nat}, (reap created items tasks).2 = none →
    ∀ id t, (id, t) ∈ items → Finished created t → (reap created items tasks).1.lookup id = none ∧
      ∀ message, (created[t]?).bind RepoTask.outcome ≠ some (.error message)
  | (repoId, u) :: items, tasks, h, id, t, hmem, hfinished => by
    unfold reap at h ⊢
    split at h
    · rename_i hlive
      rcases List.mem_cons.1 hmem with heq | hmem
      · cases heq
        exact absurd hlive hfinished
      · exact reap_eq_none h id t hmem hfinished
    · cases h
    · rename_i outcome hnot hdone
      rcases List.mem_cons.1 hmem with heq | hmem
      · cases heq
        refine ⟨lookup_reap_eq_none ((Dict.lookup_delete _ _ _).trans (if_pos rfl)), fun message he => ?_⟩
        exact hnot message (Option.some.inj (hdone.symm.trans he))
      · exact reap_eq_none h id t hmem hfinished

/-- **The error that is raised** is one of a finished item. -/
theorem reap_eq_some : ∀ {items : List (Str × Nat)} {tasks : Dict Str Nat} {message : Str},
    (reap created items tasks).2 = some message →
      ∃ id t, (id, t) ∈ items ∧ (created[t]?).bind RepoTask.outcome = some (.error message)
  | (repoId, u) :: items, tasks, message, h => by
    unfold reap at h
    split at h
    · obtain ⟨id, t, hmem, he⟩ := reap_eq_some h
      exact ⟨id, t, List.mem_cons_of_mem _ hmem, he⟩
    · rename_i found he
      cases h
      exact ⟨repoId, u, List.mem_cons_self, he⟩
    · obtain ⟨id, t, hmem, he⟩ := reap_eq_some h
      exact ⟨id, t, List.mem_cons_of_mem _ hmem, he⟩

/-! ## The invariant -/

/-- Every tracked task is one of its repository, every unfinished task is the tracked one, and none was cancelled twice. -/
structure Inv (d : RepoDispatcher) : Prop where
  tracked : ∀ id t, d.tasks.lookup id = some t → ∃ task, d.created[t]? = some task ∧ task.repo.id = id
  live : ∀ t task, d.Live t task → d.tasks.lookup task.repo.id = some t
  once : ∀ task ∈ d.created, task.requested ≤ 1

theorem inv_new : Inv new := by
  refine ⟨fun id t h => ?_, fun t task h => ?_, fun task h => absurd h List.not_mem_nil⟩
  · cases h
  · exact absurd h.1 (by simp [new])

/-- A tracked task is not done, or it is finished. -/
theorem Inv.live_of_lookup (h : self.Inv) {id : Str} {t : Nat} (ht : self.tasks.lookup id = some t)
    (hlive : ¬ Finished self.created t) : ∃ task, self.Live t task ∧ task.repo.id = id := by
  obtain ⟨task, htask, hid⟩ := h.tracked id t ht
  refine ⟨task, ⟨htask, ?_⟩, hid⟩
  unfold Finished at hlive
  rw [htask] at hlive
  exact not_not.1 hlive

theorem not_finished_of_live {t : Nat} {task : RepoTask} (h : self.Live t task) : ¬ Finished self.created t := by
  unfold Finished
  rw [h.1, not_not]
  exact h.2

/-- **Reaping keeps the invariant**, whatever it raises. -/
theorem Inv.reaped (h : self.Inv) (config : SchedulerConfig) : (self.reaped config).Inv := by
  refine ⟨fun id t ht => ?_, fun t task hlive => ?_, h.once⟩
  · rcases lookup_reap self.created id self.tasks.rows self.tasks with hsame | ⟨hnone, -⟩
    · exact h.tracked id t (hsame ▸ ht)
    · exact absurd (hnone.symm.trans ht) (by simp)
  · have htracked := h.live t task hlive
    rcases lookup_reap self.created task.repo.id self.tasks.rows self.tasks with hsame | ⟨-, u, hu, hfinished⟩
    · exact hsame.trans htracked
    · rw [Dict.lookup_eq_some_iff.2 hu] at htracked
      cases htracked
      exact absurd hfinished (not_finished_of_live hlive)

/-- What a change of the tasks may do to keep the invariant: it finishes tasks, and it cancels those it may. -/
theorem Inv.modify (h : self.Inv) {created : List RepoTask} (f : Nat → RepoTask → RepoTask)
    (hcreated : ∀ t, created[t]? = (self.created[t]?).map (f t)) (hrepo : ∀ t task, (f t task).repo = task.repo)
    (hdone : ∀ t task, (f t task).outcome = none → task.outcome = none)
    (honce : ∀ t task, task.requested ≤ 1 → (f t task).requested ≤ 1) : Inv { self with created := created } := by
  refine ⟨fun id t ht => ?_, fun t task hlive => ?_, fun task hmem => ?_⟩
  · obtain ⟨task, htask, hid⟩ := h.tracked id t ht
    exact ⟨f t task, by rw [hcreated, htask]; rfl, by rw [hrepo, hid]⟩
  · obtain ⟨htask, hnone⟩ := hlive
    rw [hcreated] at htask
    obtain ⟨old, hold, rfl⟩ := Option.map_eq_some_iff.1 htask
    rw [hrepo]
    exact h.live t old ⟨hold, hdone t old hnone⟩
  · obtain ⟨t, ht⟩ := List.mem_iff_getElem?.1 hmem
    rw [hcreated] at ht
    obtain ⟨old, hold, rfl⟩ := Option.map_eq_some_iff.1 ht
    exact honce t old (h.once old (List.mem_of_getElem? hold))

theorem Inv.cancelAll (h : self.Inv) (ts : List Nat) : Inv { self with created := cancelAll self.created ts } := by
  refine h.modify (fun t task => if t ∈ ts then task.cancelOnce else task) (fun t => getElem?_cancelAll t ts _) ?_ ?_ ?_
  · intro t task
    split
    · exact task.sameWork_cancelOnce.repo
    · rfl
  · intro t task hnone
    split at hnone
    · rwa [task.sameWork_cancelOnce.outcome] at hnone
    · exact hnone
  · intro t task hreq
    split
    · exact RepoTask.requested_cancelOnce hreq
    · exact hreq

theorem Inv.modifyTask (h : self.Inv) (t : Nat) {f : RepoTask → RepoTask} (hrepo : ∀ task, (f task).repo = task.repo)
    (hdone : ∀ task, (f task).outcome = none → task.outcome = none)
    (honce : ∀ task, (f task).requested = task.requested) : (self.modifyTask t f).Inv := by
  refine h.modify (fun u task => if t = u then f task else task) (fun u => by rw [List.getElem?_modify]; rfl) ?_ ?_ ?_
  · intro u task
    split
    · exact hrepo task
    · rfl
  · intro u task hnone
    split at hnone
    · exact hdone task hnone
    · exact hnone
  · intro u task hreq
    split
    · rwa [honce]
    · exact hreq

theorem live_append {created : List RepoTask} {t : Nat} {new task : RepoTask} (hcreated : self.created = created ++ [new])
    (hnew : new.outcome = none) :
    self.Live t task ↔ Live { self with created := created } t task ∨ t = created.length ∧ task = new := by
  unfold Live
  rw [hcreated, List.getElem?_append]
  dsimp only
  split
  · rename_i hlt
    rw [or_iff_left (by rintro ⟨rfl, -⟩; exact absurd hlt (lt_irrefl _))]
  · rename_i hge
    rw [List.getElem?_eq_none (Nat.le_of_not_lt hge)]
    constructor
    · rintro ⟨htask, -⟩
      obtain ⟨hlt, rfl⟩ := List.getElem?_eq_some_iff.1 htask
      have hlen : t - created.length < 1 := hlt
      exact Or.inr ⟨by omega, by simp⟩
    · rintro (⟨hno, -⟩ | ⟨rfl, rfl⟩)
      · cases hno
      · exact ⟨by simp, hnew⟩

/-- **A task that is started** is the only one of its repository. -/
theorem Inv.startTask (h : self.Inv) {config : SchedulerConfig} {repo : RepoConfig}
    (hrepo : self.tasks.lookup repo.id = none) : (self.startTask config repo).Inv := by
  have hlookup : ∀ id, (self.startTask config repo).tasks.lookup id =
      if id = repo.id then some self.created.length else self.tasks.lookup id := fun id => Dict.lookup_set _ _ _ _
  refine ⟨fun id t ht => ?_, fun t task hlive => ?_, fun task hmem => ?_⟩
  · rw [hlookup] at ht
    split at ht
    · rename_i hid
      cases ht
      exact ⟨_, List.getElem?_concat_length, hid.symm⟩
    · obtain ⟨task, htask, hid⟩ := h.tracked id t ht
      exact ⟨task, List.getElem?_append_left (List.getElem?_eq_some_iff.1 htask).1 ▸ htask, hid⟩
  · rw [hlookup]
    rcases (live_append (rfl : (self.startTask config repo).created = _) rfl).1 hlive with hold | ⟨rfl, rfl⟩
    · have htracked := h.live t task hold
      rw [if_neg fun hid => by rw [hid, hrepo] at htracked; cases htracked]
      exact htracked
    · exact if_pos rfl
  · rcases List.mem_append.1 hmem with hold | hnew
    · exact h.once task hold
    · rw [List.mem_singleton.1 hnew]
      exact Nat.zero_le 1

theorem created_startAll (config : SchedulerConfig) : ∀ (due : List RepoConfig) (self : RepoDispatcher),
    (self.startAll config due).created = self.created ++ due.map fun repo => { config := config, repo := repo }
  | [], self => (List.append_nil _).symm
  | repo :: due, self => by
    have ih := created_startAll config due (self.startTask config repo)
    unfold startAll at ih ⊢
    rw [List.foldl_cons, ih, List.map_cons]
    exact List.append_assoc _ [_] _

theorem Inv.startAll {config : SchedulerConfig} : ∀ {due : List RepoConfig} {self : RepoDispatcher}, self.Inv →
    (∀ repo ∈ due, self.tasks.lookup repo.id = none) → (due.map fun repo => repo.id).Nodup →
      (self.startAll config due).Inv
  | [], _, h, _, _ => h
  | repo :: due, self, h, hnew, hnd => by
    rw [List.map_cons, List.nodup_cons] at hnd
    refine @Inv.startAll config due (self.startTask config repo) (h.startTask (hnew repo List.mem_cons_self)) ?_ hnd.2
    intro other hother
    have hne : other.id ≠ repo.id := fun hid => hnd.1 (hid ▸ List.mem_map_of_mem hother)
    exact (Dict.lookup_set _ _ _ _).trans ((if_neg hne).trans (hnew other (List.mem_cons_of_mem _ hother)))

/-! ## A tick -/

section
variable {config : SchedulerConfig} {reads : DueReads}

/-- The repositories without a task that are due. -/
def due (fromisoformat : Str → Option Int) (self : RepoDispatcher) (config : SchedulerConfig) (reads : DueReads)
    (summaries : Dict Str RepoSummary) : List RepoConfig :=
  (self.untracked config).filter fun repo =>
    isDue fromisoformat (reads.now repo.id) config.config repo summaries = some true

/-- **What a tick can do**: it stops at the error of a task or at the size of the pool, or it cancels what was removed, and
then starts what is due unless the summaries cannot be read. -/
theorem reconcile_cases (fromisoformat : Str → Option Int) (self : RepoDispatcher) (config : SchedulerConfig)
    (reads : DueReads) :
    (∃ message, (reap self.created self.tasks.rows self.tasks).2 = some message ∧
      self.reconcile fromisoformat config reads = (self.reaped config, .error (.sqlite message))) ∨
    (reap self.created self.tasks.rows self.tasks).2 = none ∧
      ((∃ message, self.reconcile fromisoformat config reads = (self.reaped config, .error (.value message))) ∨
      ∃ slots cancelled, cancelled = { self.reaped config with slots := some slots }.cancelRemoved config ∧
        ((∃ message, self.reconcile fromisoformat config reads = (cancelled, .error (.sqlite message))) ∨
        ∃ summaries, reads.summaries = .ok summaries ∧ self.reconcile fromisoformat config reads =
          (cancelled.startAll config (cancelled.due fromisoformat config reads summaries), .ok ()))) := by
  unfold reconcile
  dsimp only
  split
  · rename_i message hfailed
    exact Or.inl ⟨message, hfailed, rfl⟩
  · rename_i hreap
    refine Or.inr ⟨hreap, ?_⟩
    split
    · rename_i message _
      exact Or.inl ⟨message, rfl⟩
    · rename_i slots _
      refine Or.inr ⟨slots, _, rfl, ?_⟩
      unfold dueRepositories
      cases hread : reads.summaries with
      | error message => exact Or.inl ⟨message, rfl⟩
      | ok summaries => exact Or.inr ⟨summaries, rfl, rfl⟩

theorem mem_due {summaries : Dict Str RepoSummary} {repo : RepoConfig} :
    repo ∈ self.due fromisoformat config reads summaries ↔ repo ∈ config.config.repos ∧
      self.tasks.lookup repo.id = none ∧
      isDue fromisoformat (reads.now repo.id) config.config repo summaries = some true := by
  unfold due untracked
  rw [List.mem_filter, List.mem_filter, decide_eq_true_eq, Option.isNone_iff_eq_none, and_assoc]

theorem Inv.cancelRemoved (h : self.Inv) (slots : SlotSystem) (config : SchedulerConfig) :
    Inv ({ self with slots := some slots }.cancelRemoved config) :=
  have hslots : Inv { self with slots := some slots } := ⟨h.tracked, h.live, h.once⟩
  hslots.cancelAll _

theorem Inv.startDue (h : self.Inv) (summaries : Dict Str RepoSummary) :
    (self.startAll config (self.due fromisoformat config reads summaries)).Inv :=
  h.startAll (fun _ hrepo => (mem_due.1 hrepo).2.1)
    (((List.filter_sublist.trans List.filter_sublist).map fun repo : RepoConfig => repo.id).nodup config.config.idsNodup)

theorem Inv.reconcile (h : self.Inv) : (self.reconcile fromisoformat config reads).1.Inv := by
  rcases reconcile_cases fromisoformat self config reads with ⟨message, -, heq⟩ | ⟨-, ⟨message, heq⟩ |
    ⟨slots, cancelled, rfl, ⟨message, heq⟩ | ⟨summaries, -, heq⟩⟩⟩
  · rw [heq]
    exact h.reaped config
  · rw [heq]
    exact h.reaped config
  · rw [heq]
    exact (h.reaped config).cancelRemoved slots config
  · rw [heq]
    exact ((h.reaped config).cancelRemoved slots config).startDue summaries

/-- **The tasks after a tick**: the old ones, of which some of removed repositories are cancelled, and new ones of
configured repositories. -/
theorem Inv.created_reconcile (h : self.Inv) (fromisoformat : Str → Option Int) (config : SchedulerConfig)
    (reads : DueReads) : ∃ ts due,
    (self.reconcile fromisoformat config reads).1.created =
      RepoDispatcher.cancelAll self.created ts ++
        (due : List RepoConfig).map (fun repo => { config := config, repo := repo }) ∧
    (∀ t ∈ ts, ∀ task, self.created[t]? = some task → task.repo.id ∉ config.config.repos.map fun repo => repo.id) ∧
    ∀ repo ∈ due, repo ∈ config.config.repos := by
  have hremoved : ∀ slots, ∀ t ∈ RepoDispatcher.removed { self.reaped config with slots := slots } config,
      ∀ task, self.created[t]? = some task → task.repo.id ∉ config.config.repos.map fun repo => repo.id := by
    intro slots t ht task htask
    obtain ⟨⟨id, u⟩, hmem, rfl⟩ := List.mem_map.1 ht
    obtain ⟨hmem, hid⟩ := List.mem_filter.1 hmem
    obtain ⟨found, hfound, hrepo⟩ := (h.reaped config).tracked id u (Dict.lookup_eq_some_iff.2 hmem)
    have heq : found = task := Option.some.inj (hfound.symm.trans htask)
    rw [← heq, hrepo]
    simpa using hid
  have hnone : ∀ repo ∈ ([] : List RepoConfig), repo ∈ config.config.repos := fun _ hrepo => absurd hrepo List.not_mem_nil
  rcases reconcile_cases fromisoformat self config reads with ⟨message, -, heq⟩ | ⟨-, ⟨message, heq⟩ |
    ⟨slots, cancelled, rfl, ⟨message, heq⟩ | ⟨summaries, -, heq⟩⟩⟩
  · exact ⟨[], [], by rw [heq]; exact (List.append_nil _).symm, fun _ ht => absurd ht List.not_mem_nil, hnone⟩
  · exact ⟨[], [], by rw [heq]; exact (List.append_nil _).symm, fun _ ht => absurd ht List.not_mem_nil, hnone⟩
  · exact ⟨_, [], by rw [heq]; exact (List.append_nil _).symm, hremoved (some slots), hnone⟩
  · refine ⟨_, _, by rw [heq]; exact created_startAll config _ _, hremoved (some slots), fun repo hrepo => ?_⟩
    exact (mem_due.1 hrepo).1

/-- **What a tick does to a task that is there**: it may cancel it, for a repository that is gone. -/
theorem Inv.kept_reconcile (h : self.Inv) (fromisoformat : Str → Option Int) (config : SchedulerConfig)
    (reads : DueReads) {t : Nat} {task : RepoTask} (ht : self.created[t]? = some task) :
    ∃ task', (self.reconcile fromisoformat config reads).1.created[t]? = some task' ∧ task.SameWork task' ∧
      (task'.requested ≠ task.requested → task.repo.id ∉ config.config.repos.map fun repo => repo.id) := by
  obtain ⟨ts, due, hcreated, hremoved, -⟩ := h.created_reconcile fromisoformat config reads
  have hlt : t < (RepoDispatcher.cancelAll self.created ts).length := by
    rw [length_cancelAll]
    exact (List.getElem?_eq_some_iff.1 ht).1
  rw [hcreated, List.getElem?_append_left hlt, getElem?_cancelAll, ht]
  refine ⟨if t ∈ ts then task.cancelOnce else task, rfl, ?_⟩
  by_cases hmem : t ∈ ts
  · rw [if_pos hmem]
    exact ⟨task.sameWork_cancelOnce, fun _ => hremoved t hmem task ht⟩
  · rw [if_neg hmem]
    exact ⟨⟨rfl, rfl, rfl⟩, fun hne => absurd rfl hne⟩

theorem Inv.started_reconcile (h : self.Inv) {t : Nat} {task : RepoTask} (hnew : self.created.length ≤ t)
    (ht : (self.reconcile fromisoformat config reads).1.created[t]? = some task) : task.repo ∈ config.config.repos := by
  obtain ⟨ts, due, hcreated, -, hdue⟩ := h.created_reconcile fromisoformat config reads
  rw [hcreated, List.getElem?_append_right (by rwa [length_cancelAll])] at ht
  obtain ⟨repo, hrepo, rfl⟩ := List.mem_map.1 (List.mem_of_getElem? ht)
  exact hdue repo hrepo

/-- After an undisturbed reaping, whatever is tracked runs. -/
theorem Inv.live_reaped (h : self.Inv) (hreap : (reap self.created self.tasks.rows self.tasks).2 = none) {id : Str} {t : Nat}
    (ht : (self.reaped config).tasks.lookup id = some t) : ∃ task, self.Live t task ∧ task.repo.id = id := by
  rcases lookup_reap self.created id self.tasks.rows self.tasks with hsame | ⟨hnone, -⟩
  · have htracked : self.tasks.lookup id = some t := hsame.symm.trans ht
    refine h.live_of_lookup htracked fun hfinished => ?_
    have hforgotten := (reap_eq_none hreap id t (Dict.lookup_eq_some_iff.1 htracked) hfinished).1
    rw [show (self.reaped config).tasks.lookup id = none from hforgotten] at ht
    cases ht
  · rw [show (self.reaped config).tasks.lookup id = none from hnone] at ht
    cases ht

/-- **A tick that returns** leaves a running task for every configured repository that is due. -/
theorem Inv.due_reconcile (h : self.Inv) (hok : (self.reconcile fromisoformat config reads).2 = .ok ()) :
    ∃ summaries, reads.summaries = .ok summaries ∧ ∀ repo ∈ config.config.repos,
      isDue fromisoformat (reads.now repo.id) config.config repo summaries = some true →
      ∃ t task, (self.reconcile fromisoformat config reads).1.Live t task ∧ task.repo.id = repo.id ∧
        (self.reconcile fromisoformat config reads).1.tasks.lookup repo.id = some t := by
  have hinv : (self.reconcile fromisoformat config reads).1.Inv := h.reconcile
  rcases reconcile_cases fromisoformat self config reads with ⟨message, -, heq⟩ | ⟨hreap, ⟨message, heq⟩ |
    ⟨slots, cancelled, hcancelled, ⟨message, heq⟩ | ⟨summaries, hread, heq⟩⟩⟩
  · rw [heq] at hok
    cases hok
  · rw [heq] at hok
    cases hok
  · rw [heq] at hok
    cases hok
  · refine ⟨summaries, hread, fun repo hrepo hdue => ?_⟩
    suffices hlive : ∃ t task, (self.reconcile fromisoformat config reads).1.Live t task ∧ task.repo.id = repo.id by
      obtain ⟨t, task, hlive, hid⟩ := hlive
      exact ⟨t, task, hlive, hid, hid ▸ hinv.live t task hlive⟩
    cases htracked : cancelled.tasks.lookup repo.id with
    | some t =>
      -- the task that was there goes on
      have hat : (self.reaped config).tasks.lookup repo.id = some t := by
        rw [hcancelled] at htracked
        exact htracked
      obtain ⟨task, ⟨htask, hnone⟩, hid⟩ := h.live_reaped hreap hat
      obtain ⟨task', htask', hsame, -⟩ := h.kept_reconcile fromisoformat config reads htask
      exact ⟨t, task', ⟨htask', hsame.outcome.trans hnone⟩, by rw [hsame.repo, hid]⟩
    | none =>
      have hmem : ({ config := config, repo := repo } : RepoTask) ∈
          (self.reconcile fromisoformat config reads).1.created := by
        rw [heq, created_startAll]
        exact List.mem_append_right _ (List.mem_map_of_mem (mem_due.2 ⟨hrepo, htracked, hdue⟩))
      obtain ⟨t, ht⟩ := List.mem_iff_getElem?.1 hmem
      exact ⟨t, _, ⟨ht, rfl⟩, rfl⟩

/-- **A tracked task with an error** makes the tick raise one; nothing is cancelled or started, and whatever runs stays
tracked. -/
theorem Inv.error_reconcile (h : self.Inv) {id : Str} {t : Nat} {task : RepoTask} {message : Str}
    (ht : self.tasks.lookup id = some t) (htask : self.created[t]? = some task)
    (herror : task.outcome = some (.error message)) :
    ∃ id' t' task' message', self.tasks.lookup id' = some t' ∧ self.created[t']? = some task' ∧
      task'.outcome = some (.error message') ∧
      (self.reconcile fromisoformat config reads).2 = .error (.sqlite message') ∧
      (self.reconcile fromisoformat config reads).1.created = self.created ∧
      ∀ u other, self.Live u other → (self.reconcile fromisoformat config reads).1.tasks.lookup other.repo.id = some u := by
  have hcarries : (self.created[t]?).bind RepoTask.outcome = some (.error message) := by rw [htask]; exact herror
  rcases reconcile_cases fromisoformat self config reads with ⟨message', hraised, heq⟩ | ⟨hreap, -⟩
  · obtain ⟨id', t', hitem, hfound⟩ := reap_eq_some hraised
    obtain ⟨task', htask', herror'⟩ := Option.bind_eq_some_iff.1 hfound
    refine ⟨id', t', task', message', Dict.lookup_eq_some_iff.2 hitem, htask', herror', by rw [heq], by rw [heq]; rfl, ?_⟩
    rw [heq]
    exact fun u other hlive => (h.reaped config).live u other hlive
  · have hfinished : Finished self.created t := by
      unfold Finished
      rw [hcarries]
      exact nofun
    exact absurd hcarries ((reap_eq_none hreap id t (Dict.lookup_eq_some_iff.1 ht) hfinished).2 message)

end

/-! ## Runs -/

/-- `close` waits for every task that runs. -/
def Draining (d : RepoDispatcher) : Prop := ∀ ts, d.closing = some ts → ∀ t task, d.Live t task → t ∈ ts

theorem Inv.mem_values (h : self.Inv) {t : Nat} {task : RepoTask} (hlive : self.Live t task) :
    t ∈ self.tasks.rows.map Prod.snd :=
  List.mem_map.2 ⟨_, Dict.lookup_eq_some_iff.1 (h.live t task hlive), rfl⟩

theorem live_of_modifyTask {t u : Nat} {f : RepoTask → RepoTask} {task : RepoTask}
    (hdone : ∀ task, (f task).outcome = none → task.outcome = none) (h : (self.modifyTask t f).Live u task) :
    ∃ old, self.Live u old ∧ (task = old ∨ t = u ∧ task = f old) := by
  obtain ⟨htask, hnone⟩ := h
  unfold RepoDispatcher.modifyTask at htask
  rw [List.getElem?_modify] at htask
  obtain ⟨old, hold, rfl⟩ := Option.map_eq_some_iff.1 htask
  by_cases hu : t = u
  · rw [if_pos hu] at hnone ⊢
    exact ⟨old, ⟨hold, hdone old hnone⟩, Or.inr ⟨hu, rfl⟩⟩
  · rw [if_neg hu] at hnone ⊢
    exact ⟨old, ⟨hold, hnone⟩, Or.inl rfl⟩

theorem closing_startAll (config : SchedulerConfig) : ∀ (due : List RepoConfig) (self : RepoDispatcher),
    (self.startAll config due).closing = self.closing
  | [], _ => rfl
  | repo :: due, self => closing_startAll config due (self.startTask config repo)

theorem closing_reconcile (config : SchedulerConfig) (reads : DueReads) :
    (self.reconcile fromisoformat config reads).1.closing = self.closing := by
  rcases reconcile_cases fromisoformat self config reads with ⟨message, -, heq⟩ | ⟨-, ⟨message, heq⟩ |
    ⟨slots, cancelled, rfl, ⟨message, heq⟩ | ⟨summaries, -, heq⟩⟩⟩
  · rw [heq]
    rfl
  · rw [heq]
    rfl
  · rw [heq]
    rfl
  · rw [heq]
    exact closing_startAll config _ _

/-- A task that runs after cancellations ran before, and is being cancelled if it was among them. -/
theorem live_of_cancelAll (self : RepoDispatcher) {ts : List Nat} {t : Nat} {task : RepoTask}
    (h : Live { self with created := cancelAll self.created ts } t task) :
    ∃ old, self.Live t old ∧ old.SameWork task ∧ (t ∈ ts → 0 < task.cancelling) := by
  obtain ⟨htask, hnone⟩ := h
  rw [getElem?_cancelAll] at htask
  obtain ⟨old, hold, rfl⟩ := Option.map_eq_some_iff.1 htask
  by_cases ht : t ∈ ts
  · rw [if_pos ht] at hnone ⊢
    rw [old.sameWork_cancelOnce.outcome] at hnone
    exact ⟨old, ⟨hold, hnone⟩, old.sameWork_cancelOnce, fun _ => RepoTask.cancelling_cancelOnce hnone⟩
  · rw [if_neg ht] at hnone ⊢
    exact ⟨old, ⟨hold, hnone⟩, ⟨rfl, rfl, rfl⟩, fun hmem => absurd hmem ht⟩

theorem outcome_interrupt (task : RepoTask) : task.interrupt.outcome = task.outcome := by
  unfold RepoTask.interrupt
  split <;> rfl

theorem Inv.close (h : self.Inv) : self.close.Inv :=
  have hcancelled := h.cancelAll (self.tasks.rows.map Prod.snd)
  ⟨hcancelled.tracked, hcancelled.live, hcancelled.once⟩

/-- The tasks that `close` waits for are all that run once nothing else does. -/
theorem not_live_of_drained {ts : List Nat} (hdraining : self.Draining) (hclosing : self.closing = some ts)
    (hall : (ts.all fun t => (self.created[t]?).all RepoTask.done) = true) (t : Nat) (task : RepoTask) :
    ¬ self.Live t task := by
  intro hlive
  have hdone := List.all_eq_true.1 hall t (hdraining ts hclosing t task hlive)
  rw [hlive.1, Option.all_some, RepoTask.done, hlive.2] at hdone
  cases hdone

/-- **One event keeps the invariant.** -/
theorem Inv.step {e : DispatcherEvent} (h : self.Inv) (hdraining : self.Draining)
    (hs : step fromisoformat self e = some self') : self'.Inv ∧ self'.Draining := by
  cases e with
  | reconcile config reads =>
    obtain ⟨hopen, hs⟩ := Option.ite_none_right_eq_some.1 hs
    cases hs
    refine ⟨h.reconcile, fun ts hts => ?_⟩
    rw [closing_reconcile, Option.isNone_iff_eq_none.1 hopen] at hts
    cases hts
  | finish t outcome =>
    obtain ⟨-, hs⟩ := Option.ite_none_right_eq_some.1 hs
    cases hs
    have hdone : ∀ task : RepoTask, (task.finish outcome).outcome = none → task.outcome = none := fun _ hnone =>
      absurd hnone (Option.some_ne_none _)
    refine ⟨h.modifyTask t (fun _ => rfl) hdone fun _ => rfl, fun ts hts u task hlive => ?_⟩
    obtain ⟨old, hold, -⟩ := live_of_modifyTask hdone hlive
    exact hdraining ts hts u old hold
  | interrupt t =>
    cases hs
    have hdone : ∀ task : RepoTask, task.interrupt.outcome = none → task.outcome = none := fun task hnone =>
      (outcome_interrupt task).symm.trans hnone
    have hsame : ∀ task : RepoTask, task.interrupt.repo = task.repo ∧ task.interrupt.requested = task.requested := by
      intro task
      unfold RepoTask.interrupt
      split <;> exact ⟨rfl, rfl⟩
    refine ⟨h.modifyTask t (fun task => (hsame task).1) hdone fun task => (hsame task).2, fun ts hts u task hlive => ?_⟩
    obtain ⟨old, hold, -⟩ := live_of_modifyTask hdone hlive
    exact hdraining ts hts u old hold
  | uncancel t =>
    cases hs
    have hdone : ∀ task : RepoTask, task.uncancel.outcome = none → task.outcome = none := fun _ hnone => hnone
    refine ⟨h.modifyTask t (fun _ => rfl) hdone fun _ => rfl, fun ts hts u task hlive => ?_⟩
    obtain ⟨old, hold, -⟩ := live_of_modifyTask hdone hlive
    exact hdraining ts hts u old hold
  | slots e =>
    obtain ⟨slots, -, rfl⟩ := Option.map_eq_some_iff.1 hs
    exact ⟨⟨h.tracked, h.live, h.once⟩, hdraining⟩
  | close =>
    obtain ⟨-, hs⟩ := Option.ite_none_right_eq_some.1 hs
    cases hs
    refine ⟨h.close, fun ts hts t task hlive => ?_⟩
    cases hts
    obtain ⟨old, hold, -⟩ := live_of_cancelAll self hlive
    exact h.mem_values hold
  | drained cancelled =>
    unfold RepoDispatcher.step at hs
    dsimp only at hs
    split at hs
    · cases hs
    · rename_i ts hclosing
      obtain ⟨hall, hs⟩ := Option.ite_none_right_eq_some.1 hs
      cases hs
      refine ⟨⟨fun id t ht => ?_, fun t task hlive => ?_, h.once⟩, nofun⟩
      · cases cancelled with
        | true => exact h.tracked id t ht
        | false => cases ht
      · exact absurd hlive (not_live_of_drained hdraining hclosing hall t task)

theorem inv_reached {events : List DispatcherEvent} (h : Reached fromisoformat events self) : self.Inv ∧ self.Draining :=
  h.invariant (fun d => d.Inv ∧ d.Draining) (fun _ _ _ hi hs => hi.1.step hi.2 hs) ⟨inv_new, nofun⟩

theorem length_modifyTask (self : RepoDispatcher) (t : Nat) (f : RepoTask → RepoTask) :
    (self.modifyTask t f).created.length = self.created.length := List.length_modify ..

/-- Tasks are created by ticks only. -/
theorem length_step {e : DispatcherEvent} (hs : step fromisoformat self e = some self')
    (hnew : self.created.length < self'.created.length) : ∃ config reads, e = .reconcile config reads := by
  cases e with
  | reconcile config reads => exact ⟨config, reads, rfl⟩
  | finish t outcome =>
    obtain ⟨-, hs⟩ := Option.ite_none_right_eq_some.1 hs
    cases hs
    exact absurd (length_modifyTask self t _) (Nat.ne_of_gt hnew)
  | interrupt t =>
    cases hs
    exact absurd (length_modifyTask self t _) (Nat.ne_of_gt hnew)
  | uncancel t =>
    cases hs
    exact absurd (length_modifyTask self t _) (Nat.ne_of_gt hnew)
  | slots e =>
    obtain ⟨slots, -, rfl⟩ := Option.map_eq_some_iff.1 hs
    exact absurd hnew (lt_irrefl _)
  | close =>
    obtain ⟨-, hs⟩ := Option.ite_none_right_eq_some.1 hs
    cases hs
    exact absurd (length_cancelAll _ self.created) (Nat.ne_of_gt hnew)
  | drained cancelled =>
    unfold RepoDispatcher.step at hs
    dsimp only at hs
    split at hs
    · cases hs
    · obtain ⟨-, hs⟩ := Option.ite_none_right_eq_some.1 hs
      cases hs
      exact absurd hnew (lt_irrefl _)

/-- **One task per repository**, in every run.  No two tasks of one repository run at once, and `reconcile` and `close`
together cancel a task at most once.  A tick cancels only tasks of repositories that are missing from its configuration and
starts only tasks of configured ones, which nothing else does; if it returns, every configured repository whose check says
that it is due has a running task.  A finished task is still tracked; if it carries an error, the tick raises one, changes
no task and keeps whatever runs tracked, until `close` has every running task cancelled and waits for all of them. -/
theorem one_task_per_repository {events : List DispatcherEvent} (h : Reached fromisoformat events self) :
    (∀ t t' task task', self.Live t task → self.Live t' task' → task.repo.id = task'.repo.id → t = t') ∧
    (∀ task ∈ self.created, task.requested ≤ 1) ∧
    (∀ config reads self' result, self.reconcile fromisoformat config reads = (self', result) →
      (∀ (t : Nat) (task : RepoTask), self.created[t]? = some task →
        ∃ task', self'.created[t]? = some task' ∧ task.SameWork task' ∧
          (task'.requested ≠ task.requested → task.repo.id ∉ config.config.repos.map fun repo => repo.id)) ∧
      (∀ (t : Nat) task, self.created.length ≤ t → self'.created[t]? = some task → task.repo ∈ config.config.repos) ∧
      (result = .ok () → ∃ summaries, reads.summaries = .ok summaries ∧ ∀ repo ∈ config.config.repos,
        isDue fromisoformat (reads.now repo.id) config.config repo summaries = some true →
        ∃ t task, self'.Live t task ∧ task.repo.id = repo.id ∧ self'.tasks.lookup repo.id = some t) ∧
      ∀ id t task message, self.tasks.lookup id = some t → self.created[t]? = some task →
        task.outcome = some (.error message) →
        ∃ id' t' task' message', self.tasks.lookup id' = some t' ∧ self.created[t']? = some task' ∧
          task'.outcome = some (.error message') ∧ result = .error (.sqlite message') ∧
          self'.created = self.created ∧ ∀ u other, self.Live u other → self'.tasks.lookup other.repo.id = some u) ∧
    (∀ e self', step fromisoformat self e = some self' → self.created.length < self'.created.length →
      ∃ config reads, e = .reconcile config reads) ∧
    (∀ t outcome self', step fromisoformat self (.finish t outcome) = some self' →
      ∃ task, self'.created[t]? = some task ∧ task.outcome = some (checkOne outcome) ∧
        self'.tasks.lookup task.repo.id = some t) ∧
    (∀ self', step fromisoformat self .close = some self' → ∃ ts, self'.closing = some ts ∧ ∀ t task, self'.Live t task →
      t ∈ ts ∧ 0 < task.cancelling ∧ self'.tasks.lookup task.repo.id = some t) ∧
    (∀ cancelled self', step fromisoformat self (.drained cancelled) = some self' → ∀ t task, ¬ self'.Live t task) := by
  obtain ⟨hi, hdraining⟩ := inv_reached h
  refine ⟨fun t t' task task' hlive hlive' hid => ?_, hi.once, ?_, fun e self' => length_step, ?_, ?_, ?_⟩
  · have hat := hi.live t task hlive
    rw [hid, hi.live t' task' hlive'] at hat
    exact (Option.some.inj hat).symm
  · intro config reads self' result heq
    obtain rfl : (self.reconcile fromisoformat config reads).1 = self' := congrArg Prod.fst heq
    obtain rfl : (self.reconcile fromisoformat config reads).2 = result := congrArg Prod.snd heq
    exact ⟨fun t task => hi.kept_reconcile fromisoformat config reads, fun t task => hi.started_reconcile, hi.due_reconcile,
      fun id t task message => hi.error_reconcile⟩
  · intro t outcome self' hs
    obtain ⟨hruns, hs⟩ := Option.ite_none_right_eq_some.1 hs
    cases hs
    obtain ⟨task, htask, hnone⟩ := (Option.any_eq_true _ _).1 hruns
    have hlive : self.Live t task := ⟨htask, by simpa [RepoTask.done] using hnone⟩
    refine ⟨task.finish outcome, ?_, rfl, hi.live t task hlive⟩
    unfold modifyTask
    rw [List.getElem?_modify_eq, htask]
    rfl
  · intro self' hs
    obtain ⟨-, hs⟩ := Option.ite_none_right_eq_some.1 hs
    cases hs
    refine ⟨_, rfl, fun t task hlive => ?_⟩
    obtain ⟨old, hold, hsame, hcancelling⟩ := live_of_cancelAll self hlive
    have hmem := hi.mem_values hold
    exact ⟨hmem, hcancelling hmem, hi.close.live t task hlive⟩
  · intro cancelled self' hs
    unfold step at hs
    dsimp only at hs
    split at hs
    · cases hs
    · rename_i ts hclosing
      obtain ⟨hall, hs⟩ := Option.ite_none_right_eq_some.1 hs
      cases hs
      exact fun t task hlive => not_live_of_drained hdraining hclosing hall t task hlive

def oneRepository : SchedulerConfig :=
  ⟨⟨3600, [], [plainRepo .dnf "a" "http://h/x"], {}, by decide, NginxConfig.versionOk_default⟩, 2⟩

def noRepository : SchedulerConfig := ⟨⟨3600, [], [], {}, List.nodup_nil, NginxConfig.versionOk_default⟩, 2⟩

/-- A repository is added, removed and added again while its task is still cleaning up. -/
def readdedEvents : List DispatcherEvent :=
  [oneRepository, noRepository, noRepository, oneRepository].map fun config => .reconcile config ⟨.ok .empty, fun _ => 0⟩

theorem one_task_per_repository_readded : ∃ self, Reached (fun _ => none) readdedEvents self ∧
    self.created.map (fun task => (task.repo.id, task.outcome, task.requested)) = [("a".toList, none, 1)] ∧
    ∀ task ∈ self.created, task.requested ≤ 1 := by
  have hseen : (readdedEvents.foldlM (step fun _ => none) new).map (fun self =>
      self.created.map fun task => (task.repo.id, task.outcome, task.requested)) = some [("a".toList, none, 1)] := by decide
  obtain ⟨self, hself, hcreated⟩ := Option.map_eq_some_iff.1 hseen
  have hrun : Reached (fun _ => none) readdedEvents self := run_iff_foldlM.2 hself
  exact ⟨self, hrun, hcreated, (one_task_per_repository hrun).2.1⟩

end RepoDispatcher
end RepoWatch
