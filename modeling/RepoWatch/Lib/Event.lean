import Mathlib.Data.List.Basic
/-!
# Lib.Event — an event that the tasks of one event loop wait for

A task that waits suspends until its future is done: `set` resolves every pending one, a cancellation ends one, and either
way the task still has to run before it is off the list.  As long as a set event has no pending future (`Waking`), a task
that is pending has not missed a `set`.
-/
namespace Lib

inductive Future where
  | pending
  | resolved
  | cancelled
  deriving DecidableEq

structure Event (ω : Type) where
  value : Bool
  waiters : List (ω × Future)

namespace Event
variable {ω : Type}

def new : Event ω := ⟨false, []⟩

/-- A future that is done stays as it is. -/
def resolve : Future → Future
  | .pending => .resolved
  | f => f

def set (e : Event ω) : Event ω := if e.value then e else ⟨true, e.waiters.map fun w => (w.1, resolve w.2)⟩

def clear (e : Event ω) : Event ω := { e with value := false }

/-- `none` when the event is set and the task goes on at once. -/
def wait (e : Event ω) (w : ω) : Option (Event ω) :=
  if e.value then none else some { e with waiters := e.waiters ++ [(w, .pending)] }

/-- The tasks that wait and will not run before the next `set` or their cancellation. -/
def IsPending (e : Event ω) (w : ω) : Prop := (w, .pending) ∈ e.waiters

def Waking (e : Event ω) : Prop := e.value = true → ∀ w, ¬ e.IsPending w

variable {e : Event ω} {w x : ω}

theorem resolve_ne_pending (f : Future) : resolve f ≠ .pending := by cases f <;> decide

/-- **A `set` leaves nobody pending.** -/
theorem not_isPending_set (h : e.Waking) : ¬ e.set.IsPending w := by
  unfold set
  split
  · rename_i hv
    exact h hv w
  · intro hw
    obtain ⟨x, -, hx⟩ := List.mem_map.1 hw
    exact resolve_ne_pending _ (Prod.mk.inj hx).2

theorem waking_set (h : e.Waking) : e.set.Waking := fun _ _ => not_isPending_set h

theorem map_fst_set : e.set.waiters.map Prod.fst = e.waiters.map Prod.fst := by
  unfold set
  split
  · rfl
  · simp [Function.comp_def]

/-- A cleared event lets nobody through. -/
theorem wait_clear (e : Event ω) (w : ω) : e.clear.wait w = some ⟨false, e.waiters ++ [(w, .pending)]⟩ := rfl

section
variable [DecidableEq ω]

/-- Cancel a waiting task, woken or not. -/
def cancel (e : Event ω) (w : ω) : Event ω :=
  { e with waiters := e.waiters.map fun x => if x.1 = w then (x.1, .cancelled) else x }

/-- The task runs again and leaves the list. -/
def remove (e : Event ω) (w : ω) : Event ω := { e with waiters := e.waiters.filter fun x => x.1 ≠ w }

theorem isPending_of_cancel (h : (e.cancel w).IsPending x) : e.IsPending x := by
  obtain ⟨y, hy, heq⟩ := List.mem_map.1 h
  split at heq
  · cases heq
  · rwa [heq] at hy

theorem isPending_of_remove (h : (e.remove w).IsPending x) : e.IsPending x := (List.mem_filter.1 h).1

theorem waking_cancel (h : e.Waking) : (e.cancel w).Waking := fun hv x hx => h hv x (isPending_of_cancel hx)

theorem waking_remove (h : e.Waking) : (e.remove w).Waking := fun hv x hx => h hv x (isPending_of_remove hx)

theorem map_fst_cancel : (e.cancel w).waiters.map Prod.fst = e.waiters.map Prod.fst := by
  unfold cancel
  rw [List.map_map]
  refine List.map_congr_left fun x _ => ?_
  dsimp only [Function.comp_apply]
  split <;> rfl

theorem mem_map_fst_remove : x ∈ (e.remove w).waiters.map Prod.fst ↔ x ∈ e.waiters.map Prod.fst ∧ x ≠ w := by
  unfold remove
  simp only [List.mem_map, List.mem_filter, decide_eq_true_eq]
  constructor
  · rintro ⟨y, ⟨hy, hne⟩, rfl⟩
    exact ⟨⟨y, hy, rfl⟩, hne⟩
  · rintro ⟨⟨y, hy, rfl⟩, hne⟩
    exact ⟨y, ⟨hy, hne⟩, rfl⟩

end
end Event
end Lib
