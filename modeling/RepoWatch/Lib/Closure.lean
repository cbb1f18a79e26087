import Mathlib.Data.List.Nodup
import Mathlib.Data.List.Perm.Subperm
import Mathlib.Logic.Relation
/-!
# Lib.Closure — what a worklist has found of a graph

A worklist search keeps what it has found and what is pending.  `Explored succ root found pending` is its invariant,
whatever the order in which it takes the pending nodes: it holds at the start, when a node that was found is dropped and
when a new one is found and its successors become pending, and at the end the nodes found are those reachable from the
root.
-/
namespace Lib

variable {α : Type} {succ : α → α → Prop} {root x : α} {found found' pending pending' : List α}

/-- `x` is reachable from the root. -/
abbrev Reach (succ : α → α → Prop) (root x : α) : Prop := Relation.ReflTransGen succ root x

structure Explored (succ : α → α → Prop) (root : α) (found pending : List α) : Prop where
  start_mem : root ∈ found ∨ root ∈ pending
  reach : ∀ x, x ∈ found ∨ x ∈ pending → Reach succ root x
  closed : ∀ x ∈ found, ∀ y, succ x y → y ∈ found ∨ y ∈ pending

namespace Explored

theorem start : Explored succ root [] [root] where
  start_mem := .inr (List.mem_singleton_self root)
  reach := by
    rintro x (hx | hx)
    · exact absurd hx List.not_mem_nil
    · rw [List.mem_singleton.1 hx]
  closed := fun x hx => absurd hx List.not_mem_nil

theorem drop (h : Explored succ root found (x :: pending)) (hx : x ∈ found) : Explored succ root found pending := by
  have hpending : ∀ y, y ∈ found ∨ y ∈ x :: pending → y ∈ found ∨ y ∈ pending := by
    rintro y (hy | hy)
    · exact .inl hy
    · rcases List.mem_cons.1 hy with rfl | hy
      · exact .inl hx
      · exact .inr hy
  exact ⟨hpending _ h.start_mem, fun y hy => h.reach y (hy.imp_right (List.mem_cons_of_mem _)),
    fun y hy z hz => hpending z (h.closed y hy z hz)⟩

/-- A pending node is found, and its successors become pending. -/
theorem visit (h : Explored succ root found (x :: pending)) (hfound : ∀ y, y ∈ found' ↔ y ∈ found ∨ y = x)
    (hpending : ∀ y, y ∈ pending' ↔ y ∈ pending ∨ succ x y) : Explored succ root found' pending' := by
  have hkeep : ∀ y, y ∈ found ∨ y ∈ x :: pending → y ∈ found' ∨ y ∈ pending' := by
    rintro y (hy | hy)
    · exact .inl ((hfound y).2 (.inl hy))
    · rcases List.mem_cons.1 hy with rfl | hy
      · exact .inl ((hfound y).2 (.inr rfl))
      · exact .inr ((hpending y).2 (.inl hy))
  have hx : Reach succ root x := h.reach x (.inr List.mem_cons_self)
  refine ⟨hkeep _ h.start_mem, ?_, ?_⟩
  · rintro y (hy | hy)
    · rcases (hfound y).1 hy with hy | rfl
      · exact h.reach y (.inl hy)
      · exact hx
    · rcases (hpending y).1 hy with hy | hy
      · exact h.reach y (.inr (List.mem_cons_of_mem _ hy))
      · exact hx.tail hy
  · intro y hy z hz
    rcases (hfound y).1 hy with hy | rfl
    · exact hkeep z (h.closed y hy z hz)
    · exact .inr ((hpending z).2 (.inr hz))

/-- **When nothing is pending**, what was found is what is reachable. -/
theorem mem_iff (h : Explored succ root found []) : x ∈ found ↔ Reach succ root x := by
  refine ⟨fun hx => h.reach x (.inl hx), fun hx => ?_⟩
  induction hx with
  | refl => exact h.start_mem.resolve_right List.not_mem_nil
  | tail _ hstep ih => exact (h.closed _ ih _ hstep).resolve_right List.not_mem_nil

/-- Nodes that were found and a new pending one are so many reachable nodes. -/
theorem nodup_cons (h : Explored succ root found (x :: pending)) (hfound : found.Nodup) (hx : x ∉ found) :
    (x :: found).Nodup ∧ ∀ y ∈ x :: found, Reach succ root y := by
  refine ⟨List.nodup_cons.2 ⟨hx, hfound⟩, fun y hy => ?_⟩
  rcases List.mem_cons.1 hy with rfl | hy
  · exact h.reach y (.inr List.mem_cons_self)
  · exact h.reach y (.inl hy)

end Explored

/-- At most `n` nodes are reachable from the root. -/
def ReachAtMost (succ : α → α → Prop) (root : α) (n : Nat) : Prop :=
  ∀ l : List α, l.Nodup → (∀ x ∈ l, Reach succ root x) → l.length ≤ n

theorem Explored.reachAtMost (h : Explored succ root found []) : ReachAtMost succ root found.length :=
  fun _ hnodup hreach => (hnodup.subperm fun x hx => h.mem_iff.2 (hreach x hx)).length_le

end Lib
