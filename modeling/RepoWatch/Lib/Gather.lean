import Mathlib.Data.List.Nodup
import RepoWatch.Lib.Run
/-!
# Lib.Gather — tasks that run together under a semaphore

A task waits for one of `n` permits, then either ends at once or runs until it finishes.  The tasks are taken in any order
and finish in any order.  Whatever the order, every task is in one place (`accounted`), no more than `n` run, and a gather
can go on until all of them are over (`exists_step`), which takes two steps a task at most (`length_le`).
-/
namespace Lib

structure Gather (τ ρ : Type) where
  waiting : List τ
  running : List τ
  finished : List (τ × ρ)

inductive GatherAction (τ ρ : Type) where
  | start (t : τ)
  | skip (t : τ) (r : ρ)
  | finish (t : τ) (r : ρ)

namespace Gather
variable {τ ρ : Type}

def ofTasks (tasks : List τ) : Gather τ ρ := ⟨tasks, [], []⟩

/-- No task waits or runs. -/
def Over (g : Gather τ ρ) : Prop := g.waiting = [] ∧ g.running = []

/-- Every task waits, runs or is over, and there is a permit for each that runs. -/
structure Accounted (n : Nat) (tasks : List τ) (g : Gather τ ρ) : Prop where
  perm : (g.waiting ++ g.running ++ g.finished.map Prod.fst).Perm tasks
  bound : g.running.length ≤ n

theorem accounted_ofTasks {n : Nat} {tasks : List τ} : Accounted n tasks (ofTasks tasks : Gather τ ρ) :=
  ⟨by simp [ofTasks], Nat.zero_le n⟩

/-- Different tasks are over once each at most. -/
theorem Accounted.nodup {n : Nat} {tasks : List τ} {g : Gather τ ρ} (hg : Accounted n tasks g) (h : tasks.Nodup) :
    (g.finished.map Prod.fst).Nodup :=
  (List.nodup_append.1 (hg.perm.nodup_iff.2 h)).2.1

/-- **When a gather is over**, so is every task. -/
theorem Accounted.perm_of_over {n : Nat} {tasks : List τ} {g : Gather τ ρ} (hg : Accounted n tasks g) (h : g.Over) :
    (g.finished.map Prod.fst).Perm tasks := by
  simpa [h.1, h.2] using hg.perm

variable [DecidableEq τ]

/-- A permit is free for a task that waits. -/
def Ready (n : Nat) (g : Gather τ ρ) (t : τ) : Prop := t ∈ g.waiting ∧ g.running.length < n

instance (n : Nat) (g : Gather τ ρ) (t : τ) : Decidable (Ready n g t) := by unfold Ready; infer_instance

def step (n : Nat) (g : Gather τ ρ) : GatherAction τ ρ → Option (Gather τ ρ)
  | .start t =>
    if Ready n g t then some { g with waiting := g.waiting.erase t, running := g.running ++ [t] } else none
  | .skip t r =>
    if Ready n g t then some { g with waiting := g.waiting.erase t, finished := g.finished ++ [(t, r)] } else none
  | .finish t r =>
    if t ∈ g.running then some { g with running := g.running.erase t, finished := g.finished ++ [(t, r)] } else none

abbrev Runs (n : Nat) : Gather τ ρ → List (GatherAction τ ρ) → Gather τ ρ → Prop :=
  Run fun g a g' => step n g a = some g'

variable {n : Nat} {tasks : List τ} {g g' : Gather τ ρ} {a : GatherAction τ ρ} {as : List (GatherAction τ ρ)}

/-- A task that moves over the list between. -/
theorem perm_move {t : τ} {l : List τ} (h : t ∈ l) (between l' : List τ) :
    (l.erase t ++ (between ++ (t :: l'))).Perm (l ++ (between ++ l')) := by
  have h1 : (t :: l.erase t).Perm l := (List.perm_cons_erase h).symm
  have h2 : (between ++ (t :: l')).Perm (t :: (between ++ l')) := List.perm_middle
  refine (h2.append_left _).trans (List.perm_middle.trans ?_)
  rw [← List.cons_append]
  exact h1.append_right _

theorem step_start {t : τ} (h : step n g (.start t) = some g') : Ready n g t ∧
    g' = { g with waiting := g.waiting.erase t, running := g.running ++ [t] } := by
  simpa [step, Option.ite_none_right_eq_some, eq_comm] using h

theorem step_skip {t : τ} {r : ρ} (h : step n g (.skip t r) = some g') : Ready n g t ∧
    g' = { g with waiting := g.waiting.erase t, finished := g.finished ++ [(t, r)] } := by
  simpa [step, Option.ite_none_right_eq_some, eq_comm] using h

theorem step_finish {t : τ} {r : ρ} (h : step n g (.finish t r) = some g') : t ∈ g.running ∧
    g' = { g with running := g.running.erase t, finished := g.finished ++ [(t, r)] } := by
  simpa [step, Option.ite_none_right_eq_some, eq_comm] using h

theorem accounted_step (hg : Accounted n tasks g) (h : step n g a = some g') : Accounted n tasks g' := by
  cases a with
  | start t =>
    obtain ⟨⟨hw, hn⟩, rfl⟩ := step_start h
    refine ⟨List.Perm.trans ?_ hg.perm, by simpa using Nat.succ_le_of_lt hn⟩
    simpa using perm_move hw g.running (g.finished.map Prod.fst)
  | skip t r =>
    obtain ⟨⟨hw, hn⟩, rfl⟩ := step_skip h
    refine ⟨List.Perm.trans ?_ hg.perm, hg.bound⟩
    simpa using perm_move hw (g.running ++ g.finished.map Prod.fst) []
  | finish t r =>
    obtain ⟨hr, rfl⟩ := step_finish h
    refine ⟨List.Perm.trans ?_ hg.perm, Nat.le_trans List.length_erase_le hg.bound⟩
    simpa using (perm_move hr (g.finished.map Prod.fst) []).append_left g.waiting

/-- **Every task is in one place, and no more than `n` run.** -/
theorem accounted (h : Runs n (ofTasks tasks : Gather τ ρ) as g) : Accounted n tasks g :=
  h.invariant (Accounted n tasks) (fun _ _ _ hg hs => accounted_step hg hs) accounted_ofTasks

/-! ## Progress -/

/-- **A gather that is not over can go on**: a task that runs may finish with anything, and otherwise one may start. -/
theorem exists_step (hn : 0 < n) (h : ¬ g.Over) :
    (∃ t ∈ g.running, ∀ r, (step n g (.finish t r)).isSome) ∨ ∃ t ∈ g.waiting, (step n g (.start t)).isSome := by
  by_cases hr : g.running = []
  · have hw : g.waiting ≠ [] := fun hw => h ⟨hw, hr⟩
    obtain ⟨t, ht⟩ := List.exists_mem_of_ne_nil _ hw
    have hready : Ready n g t := ⟨ht, by simpa [hr] using hn⟩
    exact Or.inr ⟨t, ht, by simp [step, hready]⟩
  · obtain ⟨t, ht⟩ := List.exists_mem_of_ne_nil _ hr
    exact Or.inl ⟨t, ht, fun r => by simp [step, ht]⟩

/-- The steps that are left at most. -/
def fuel (g : Gather τ ρ) : Nat := 2 * g.waiting.length + g.running.length

theorem fuel_step (h : step n g a = some g') : g'.fuel < g.fuel := by
  unfold fuel
  cases a with
  | start t =>
    obtain ⟨⟨hw, -⟩, rfl⟩ := step_start h
    have hpos := List.length_pos_of_mem hw
    simp only [List.length_erase_of_mem hw, List.length_append, List.length_singleton]
    omega
  | skip t r =>
    obtain ⟨⟨hw, -⟩, rfl⟩ := step_skip h
    have hpos := List.length_pos_of_mem hw
    simp only [List.length_erase_of_mem hw]
    omega
  | finish t r =>
    obtain ⟨hr, rfl⟩ := step_finish h
    have hpos := List.length_pos_of_mem hr
    simp only [List.length_erase_of_mem hr]
    omega

/-- **A gather takes two steps a task at most.** -/
theorem length_le (h : Runs n (ofTasks tasks : Gather τ ρ) as g) : as.length ≤ 2 * tasks.length := by
  have hall : as.length + g.fuel ≤ 2 * tasks.length := by
    refine h.history (fun as g => as.length + g.fuel ≤ 2 * tasks.length) (by simp [fuel, ofTasks]) ?_
    intro as g a g' _ hg hs
    have := fuel_step hs
    rw [List.length_append, List.length_singleton]
    omega
  omega

end Gather
end Lib
