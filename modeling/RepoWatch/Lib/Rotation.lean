import Mathlib.Data.Finset.Card
import Mathlib.Data.Prod.Lex
import Mathlib.Order.BooleanAlgebra.Basic
/-!
# Lib.Rotation — going round a finite set, some elements at a time

`rankAfter a` orders a linear order as it is met when one starts after `a` and wraps around.  A `Turn` visits the first
elements after a cursor and leaves the cursor at the last of them; `Turn.covers` says that turns of at least `h` elements
visit every element of a set of `n` in any `n / h` turns, rounded up.
-/
namespace Lib

variable {α : Type} [LinearOrder α]

def rankAfter (a k : α) : Bool ×ₗ α := toLex (decide (k ≤ a), k)

theorem rankAfter_inj {a x y : α} : rankAfter a x = rankAfter a y ↔ x = y := by
  simp only [rankAfter, toLex_inj, Prod.mk.injEq]
  exact ⟨fun h => h.2, fun h => by simp [h]⟩

theorem rankAfter_lt {a x y : α} : rankAfter a x < rankAfter a y ↔ (a < x ∧ y ≤ a) ∨ ((x ≤ a ↔ y ≤ a) ∧ x < y) := by
  unfold rankAfter
  rw [Prod.Lex.toLex_lt_toLex]
  by_cases hx : x ≤ a <;> by_cases hy : y ≤ a <;> simp [hx, hy, not_le.1, Bool.false_lt_true]

/-- **Starting again after an element** keeps the order of the elements that come after it. -/
theorem rankAfter_of_lt {a a' x y : α} (h : rankAfter a a' < rankAfter a y) :
    rankAfter a' x < rankAfter a' y ↔ rankAfter a a' < rankAfter a x ∧ rankAfter a x < rankAfter a y := by
  simp only [rankAfter_lt] at h ⊢
  grind

/-- A visit of the first elements of `s` after `a`, the last of them being `a'`: all of them, or `h` at least. -/
structure Turn (s : Finset α) (h : Nat) (a : α) (visited : Finset α) (a' : α) : Prop where
  sub : visited ⊆ s
  first : ∀ x ∈ visited, ∀ y ∈ s, rankAfter a y < rankAfter a x → y ∈ visited
  last : visited.Nonempty → a' ∈ visited ∧ ∀ x ∈ visited, rankAfter a x ≤ rankAfter a a'
  enough : visited = s ∨ h ≤ visited.card

namespace Turn
variable {s visited : Finset α} {h : Nat} {a a' k : α}

/-- How many elements are met before `k`. -/
def before (s : Finset α) (a k : α) : Nat := (s.filter fun x => rankAfter a x < rankAfter a k).card

theorem before_lt (hk : k ∈ s) : before s a k < s.card :=
  Finset.card_lt_card (Finset.filter_ssubset.2 ⟨k, hk, lt_irrefl _⟩)

/-- An element that is not visited comes nearer by at least `h`. -/
theorem before_add_le (t : Turn s h a visited a') (hh : 0 < h) (hk : k ∈ s) (hnot : k ∉ visited) :
    before s a' k + h ≤ before s a k := by
  have hcard : h ≤ visited.card := t.enough.resolve_left fun he => hnot (he ▸ hk)
  obtain ⟨ha', hlast⟩ := t.last (Finset.card_pos.1 (hh.trans_le hcard))
  have hearlier : ∀ x ∈ visited, rankAfter a x < rankAfter a k := fun x hx => by
    by_contra hn
    rcases (not_lt.1 hn).eq_or_lt with he | hlt
    · exact hnot (rankAfter_inj.1 he ▸ hx)
    · exact hnot (t.first x hx k hk hlt)
  have hdisjoint : Disjoint visited (s.filter fun x => rankAfter a' x < rankAfter a' k) := by
    refine Finset.disjoint_left.2 fun x hx hx' => ?_
    have := ((rankAfter_of_lt (hearlier a' ha')).1 (Finset.mem_filter.1 hx').2).1
    exact absurd this (not_lt.2 (hlast x hx))
  have hsub : visited ∪ (s.filter fun x => rankAfter a' x < rankAfter a' k) ⊆
      s.filter fun x => rankAfter a x < rankAfter a k := by
    refine Finset.union_subset (fun x hx => Finset.mem_filter.2 ⟨t.sub hx, hearlier x hx⟩) fun x hx => ?_
    obtain ⟨hxs, hx⟩ := Finset.mem_filter.1 hx
    exact Finset.mem_filter.2 ⟨hxs, ((rankAfter_of_lt (hearlier a' ha')).1 hx).2⟩
  have := Finset.card_le_card hsub
  rw [Finset.card_union_of_disjoint hdisjoint] at this
  unfold before
  omega

/-- **Every element is visited** in any `n / h` turns, rounded up, of a set of `n`. -/
theorem covers {visited : Nat → Finset α} {cursor : Nat → α} (hh : 0 < h)
    (hturn : ∀ i, Turn s h (cursor i) (visited i) (cursor (i + 1))) (hk : k ∈ s) (start : Nat) :
    ∃ i < (s.card + h - 1) / h, k ∈ visited (start + i) := by
  by_contra hnone
  push Not at hnone
  have hnear : ∀ i, i ≤ (s.card + h - 1) / h → before s (cursor (start + i)) k + i * h ≤ before s (cursor start) k := by
    intro i
    induction i with
    | zero => simp
    | succ i ih =>
      intro hi
      have hstep := (hturn (start + i)).before_add_le hh hk (hnone i hi)
      have := ih (Nat.le_of_succ_le hi)
      rw [Nat.succ_mul]
      rw [← Nat.add_assoc start i 1]
      omega
  have hlast := hnear _ le_rfl
  have hlt := before_lt (a := cursor start) hk
  have hround : s.card ≤ (s.card + h - 1) / h * h := by
    have := Nat.div_add_mod (s.card + h - 1) h
    have hmod := Nat.mod_lt (s.card + h - 1) hh
    rw [Nat.mul_comm] at this
    omega
  omega

end Turn
end Lib
