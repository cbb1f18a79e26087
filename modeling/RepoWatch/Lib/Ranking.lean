import Mathlib.Data.List.Sort
import Mathlib.Data.List.TakeDrop
import Mathlib.Order.Defs.LinearOrder
/-!
# Lib.Ranking — the first rows in an order

Rows ranked by pairwise different keys have one order.  Numbering them by a coarser order leaves ties open, and then the
first ones are the same whatever the numbering exactly when no tie lies across the cut (`numbered_take_iff`).
-/
namespace Lib.Ranking

variable {ρ κ ι : Type} [LinearOrder κ] [LinearOrder ι] {key : ρ → κ} {coarse : ρ → ι} {rows order l : List ρ} {n : Nat}

/-- The rows in the order of their keys. -/
def ranked (key : ρ → κ) (rows : List ρ) : List ρ := rows.insertionSort fun r r' => key r ≤ key r'

theorem perm_ranked (key : ρ → κ) (rows : List ρ) : (ranked key rows).Perm rows := List.perm_insertionSort _ _

theorem pairwise_le_ranked (key : ρ → κ) (rows : List ρ) : (ranked key rows).Pairwise fun r r' => key r ≤ key r' := by
  let le : ρ → ρ → Prop := fun r r' => key r ≤ key r'
  have : Std.Total le := ⟨fun r r' => le_total (key r) (key r')⟩
  have : IsTrans ρ le := ⟨fun _ _ _ h h' => le_trans h h'⟩
  exact List.pairwise_insertionSort le rows

theorem pairwise_ranked (h : (rows.map key).Nodup) : (ranked key rows).Pairwise fun r r' => key r < key r' := by
  have hnodup : ((ranked key rows).map key).Nodup := ((perm_ranked key rows).map key).nodup_iff.2 h
  have hne : (ranked key rows).Pairwise fun r r' => key r ≠ key r' := List.pairwise_map.1 hnodup
  exact ((pairwise_le_ranked key rows).and hne).imp fun h => lt_of_le_of_ne h.1 h.2

/-- **Ranked rows have one order.** -/
theorem eq_ranked (hperm : l.Perm rows) (hl : l.Pairwise fun r r' => key r < key r') : l = ranked key rows := by
  have hnodup : (rows.map key).Nodup :=
    ((hperm.map key).nodup_iff).1 (List.pairwise_map.2 (hl.imp fun h => ne_of_lt h))
  exact (hperm.trans (perm_ranked key rows).symm).eq_of_pairwise (fun a b _ _ h h' => absurd h (lt_asymm h')) hl
    (pairwise_ranked hnodup)

/-- **Ranking forgets the order** of rows with different keys. -/
theorem ranked_eq_of_perm (h : (rows.map key).Nodup) (hperm : rows.Perm l) : ranked key rows = ranked key l :=
  eq_ranked ((perm_ranked key rows).trans hperm) (pairwise_ranked h)

/-- **The first row that qualifies** is the one with the least key. -/
theorem find?_ranked (h : (rows.map key).Nodup) {p : ρ → Bool} {r : ρ} :
    (ranked key rows).find? p = some r ↔ r ∈ rows ∧ p r = true ∧ ∀ r' ∈ rows, p r' = true → key r ≤ key r' := by
  have hmem : ∀ {r'}, r' ∈ ranked key rows ↔ r' ∈ rows := (perm_ranked key rows).mem_iff
  have hleast : ∀ first, (ranked key rows).find? p = some first → ∀ r' ∈ rows, p r' = true → key first ≤ key r' := by
    intro first hfind r' hr' hp
    obtain ⟨-, front, back, hsplit, hfront⟩ := List.find?_eq_some_iff_append.1 hfind
    have hsorted := pairwise_le_ranked key rows
    rw [hsplit] at hsorted
    have hin := hmem.2 hr'
    rw [hsplit] at hin
    rcases List.mem_append.1 hin with hin | hin
    · exact absurd hp (by simpa using hfront r' hin)
    · rcases List.mem_cons.1 hin with rfl | hin
      · exact le_refl _
      · exact List.rel_of_pairwise_cons (List.pairwise_append.1 hsorted).2.1 hin
  constructor
  · exact fun hfind => ⟨hmem.1 (List.mem_of_find?_eq_some hfind), List.find?_some hfind, hleast r hfind⟩
  · rintro ⟨hr, hp, hall⟩
    cases hfind : (ranked key rows).find? p with
    | none => exact absurd hp (List.find?_eq_none.1 hfind r (hmem.2 hr))
    | some first =>
      have hfirst := hmem.1 (List.mem_of_find?_eq_some hfind)
      have hkey := le_antisymm (hleast first hfind r hr hp) (hall first hfirst (List.find?_some hfind))
      rw [List.inj_on_of_nodup_map h hfirst hr hkey]

theorem ranked_filter (h : (rows.map key).Nodup) (p : ρ → Bool) : ranked key (rows.filter p) = (ranked key rows).filter p :=
  (eq_ranked ((perm_ranked key rows).filter p) ((pairwise_ranked h).filter p)).symm

/-- **The rows before the one at a place** are the first ones. -/
theorem filter_lt_eq_take {r : ρ} (hl : l.Pairwise fun r r' => key r < key r') (hn : l[n]? = some r) :
    l.filter (fun r' => decide (key r' < key r)) = l.take n := by
  obtain ⟨hlt, rfl⟩ := List.getElem?_eq_some_iff.1 hn
  have hsplit : l.take n ++ l[n] :: l.drop (n + 1) = l := by rw [← List.drop_eq_getElem_cons hlt, List.take_append_drop]
  generalize l[n] = r at hsplit ⊢
  generalize l.take n = front at hsplit ⊢
  generalize l.drop (n + 1) = back at hsplit
  rw [← hsplit] at hl ⊢
  obtain ⟨-, hback, hfront⟩ := List.pairwise_append.1 hl
  rw [List.filter_append, List.filter_eq_self.2 fun r' hr' => decide_eq_true (hfront r' hr' r List.mem_cons_self),
    List.filter_cons_of_neg (by simp), List.filter_eq_nil_iff.2, List.append_nil]
  intro r' hr'
  simpa using (List.rel_of_pairwise_cons hback hr').le

/-! ## Numbers by a coarser order -/

/-- The rows in some order that sorts them by `coarse`; ties may stand in any order. -/
structure Numbered (coarse : ρ → ι) (rows order : List ρ) : Prop where
  perm : order.Perm rows
  sorted : order.Pairwise fun r r' => coarse r ≤ coarse r'

/-- Rows that are sorted fall apart at a bound. -/
theorem filter_append_filter (hl : l.Pairwise fun r r' => coarse r ≤ coarse r') (c : ι) :
    l.filter (fun r => decide (coarse r < c)) ++ l.filter (fun r => decide (c ≤ coarse r)) = l := by
  induction l with
  | nil => rfl
  | cons r l ih =>
    obtain ⟨hr, hl⟩ := List.pairwise_cons.1 hl
    rcases lt_or_ge (coarse r) c with hlt | hge
    · rw [List.filter_cons_of_pos (by simpa using hlt), List.filter_cons_of_neg (by simpa using hlt), List.cons_append, ih hl]
    · have hnil : l.filter (fun r => decide (coarse r < c)) = [] :=
        List.filter_eq_nil_iff.2 fun r' hr' => by simpa using hge.trans (hr r' hr')
      have hall : l.filter (fun r => decide (c ≤ coarse r)) = l :=
        List.filter_eq_self.2 fun r' hr' => by simpa using hge.trans (hr r' hr')
      rw [List.filter_cons_of_neg (by simpa using hge), List.filter_cons_of_pos (by simpa using hge), hnil, hall, List.nil_append]

theorem exists_split {a b : ρ} (ha : l[n]? = some a) (hb : l[n + 1]? = some b) :
    ∃ front back, l = front ++ a :: b :: back ∧ front.length = n := by
  obtain ⟨hn, rfl⟩ := List.getElem?_eq_some_iff.1 ha
  obtain ⟨hn', rfl⟩ := List.getElem?_eq_some_iff.1 hb
  refine ⟨l.take n, l.drop (n + 2), ?_, List.length_take_of_le hn.le⟩
  rw [← List.drop_eq_getElem_cons hn', ← List.drop_eq_getElem_cons hn, List.take_append_drop]

/-- The first rows are those below the next one's place, when no tie lies across the cut. -/
theorem take_eq_filter (hl : l.Pairwise fun r r' => coarse r ≤ coarse r') {a b : ρ} (ha : l[n]? = some a)
    (hb : l[n + 1]? = some b) (hne : coarse a ≠ coarse b) : l.take (n + 1) = l.filter fun r => decide (coarse r < coarse b) := by
  obtain ⟨front, back, rfl, hlength⟩ := exists_split ha hb
  obtain ⟨-, hback, hfront⟩ := List.pairwise_append.1 hl
  obtain ⟨hafter, hback⟩ := List.pairwise_cons.1 hback
  have hlt : coarse a < coarse b := lt_of_le_of_ne (hafter b List.mem_cons_self) hne
  have htake : (front ++ a :: b :: back).take (n + 1) = front ++ [a] := by
    rw [List.take_append, List.take_of_length_le (by omega), hlength, Nat.add_sub_cancel_left, List.take_succ_cons,
      List.take_zero]
  rw [htake, List.filter_append, List.filter_cons_of_pos (by simpa using hlt), List.filter_cons_of_neg (by simp),
    List.filter_eq_self.2 fun r hr => decide_eq_true ((hfront r hr a List.mem_cons_self).trans_lt hlt),
    List.filter_eq_nil_iff.2 fun r hr => by simpa using List.rel_of_pairwise_cons hback hr]

/-- Two neighbours of one place may stand the other way round. -/
theorem numbered_swap {front back : List ρ} {a b : ρ} (hnumbered : Numbered coarse rows (front ++ a :: b :: back))
    (heq : coarse a = coarse b) : Numbered coarse rows (front ++ b :: a :: back) where
  perm := ((List.Perm.swap a b back).append_left front).trans hnumbered.perm
  sorted := by
    obtain ⟨hfront, hback, hcross⟩ := List.pairwise_append.1 hnumbered.sorted
    obtain ⟨hafter, hback⟩ := List.pairwise_cons.1 hback
    obtain ⟨hafter', hback⟩ := List.pairwise_cons.1 hback
    refine List.pairwise_append.2 ⟨hfront, List.pairwise_cons.2 ⟨fun r hr => ?_, List.pairwise_cons.2 ⟨fun r hr => ?_, hback⟩⟩,
      fun r hr r' hr' => hcross r hr r' ((List.Perm.swap b a back).mem_iff.2 hr')⟩
    · rcases List.mem_cons.1 hr with rfl | hr
      · exact heq.ge
      · exact hafter' r hr
    · exact hafter r (List.mem_cons_of_mem b hr)

/-- **The first rows are the same in every numbering** exactly when no tie lies across the cut. -/
theorem numbered_take_iff (h : (rows.map key).Nodup) (hcoarse : ∀ r r', key r ≤ key r' → coarse r ≤ coarse r') :
    (∀ order, Numbered coarse rows order → (order.take (n + 1)).Perm ((ranked key rows).take (n + 1))) ↔
      ∀ a b, (ranked key rows)[n]? = some a → (ranked key rows)[n + 1]? = some b → coarse a ≠ coarse b := by
  have hranked : (ranked key rows).Pairwise fun r r' => coarse r ≤ coarse r' :=
    (pairwise_le_ranked key rows).imp (hcoarse _ _)
  constructor
  · intro hall a b ha hb heq
    obtain ⟨front, back, hsplit, hlength⟩ := exists_split ha hb
    have hnumbered : Numbered coarse rows (front ++ a :: b :: back) := hsplit ▸ ⟨perm_ranked key rows, hranked⟩
    have htake : ∀ x y : ρ, (front ++ x :: y :: back).take (n + 1) = front ++ [x] := fun x y => by
      rw [List.take_append, List.take_of_length_le (by omega), hlength, Nat.add_sub_cancel_left, List.take_succ_cons,
        List.take_zero]
    have hperm := hall _ (numbered_swap hnumbered heq)
    rw [hsplit, htake, htake] at hperm
    have hnodup : (front ++ a :: b :: back).Nodup :=
      hsplit ▸ (perm_ranked key rows).nodup_iff.2 (List.Nodup.of_map key h)
    have hb' : b ∈ front ++ [a] := hperm.subset (List.mem_append_right front (List.mem_singleton_self b))
    obtain ⟨-, hback, hdisjoint⟩ := List.nodup_append.1 hnodup
    rcases List.mem_append.1 hb' with hb' | hb'
    · exact hdisjoint b hb' b (List.mem_cons_of_mem a List.mem_cons_self) rfl
    · rw [List.mem_singleton.1 hb'] at hback
      exact (List.nodup_cons.1 hback).1 List.mem_cons_self
  · intro hgap order hnumbered
    have hperm : order.Perm (ranked key rows) := hnumbered.perm.trans (perm_ranked key rows).symm
    rcases Nat.lt_or_ge (n + 1) (ranked key rows).length with hlt | hle
    · have ha := List.getElem?_eq_getElem (Nat.lt_of_succ_lt hlt)
      have hb := List.getElem?_eq_getElem hlt
      have htake := take_eq_filter hranked ha hb (hgap _ _ ha hb)
      generalize (ranked key rows)[n + 1] = b at htake hb
      have hbelow := hperm.filter fun r => decide (coarse r < coarse b)
      have hlength : (order.filter fun r => decide (coarse r < coarse b)).length = n + 1 := by
        rw [hbelow.length_eq, ← htake, List.length_take, Nat.min_eq_left hlt.le]
      have horder := filter_append_filter hnumbered.sorted (coarse b)
      rw [htake, ← horder, List.take_left' hlength]
      exact hbelow
    · rw [List.take_of_length_le hle, List.take_of_length_le (hperm.length_eq ▸ hle)]
      exact hperm

end Lib.Ranking
