import Mathlib.Data.List.Dedup
import RepoWatch.Lib.Table
/-!
# Lib.Tally — a table of counts kept beside a log

An entry is a key and a weight.  A tally `Counts` a list of entries when the row of each key holds how many there are and
what they weigh; a key without a row has none.  Adding, taking away and sweeping keep this, and grouping a list builds it.
-/
namespace Lib

structure TallyRow (κ : Type) where
  key : κ
  total : Int
  hits : Int
  deriving DecidableEq

abbrev Tally (κ : Type) [DecidableEq κ] := Table (TallyRow κ) κ TallyRow.key

namespace Tally
variable {κ : Type} [DecidableEq κ] {t : Tally κ} {es es' : List (κ × Nat)} {k : κ} {w : Nat}

/-- The entries of a key. -/
def entriesOf (es : List (κ × Nat)) (k : κ) : List (κ × Nat) := es.filter fun e => decide (e.1 = k)

def count (es : List (κ × Nat)) (k : κ) : Nat := (entriesOf es k).length

def sumOf (ws : List Nat) : Nat := ws.foldr (· + ·) 0

def weight (es : List (κ × Nat)) (k : κ) : Nat := sumOf ((entriesOf es k).map Prod.snd)

def sumOfInts (ws : List Int) : Int := ws.foldr (· + ·) 0

theorem sumOf_append : ∀ ws ws' : List Nat, sumOf (ws ++ ws') = sumOf ws + sumOf ws'
  | [], _ => (Nat.zero_add _).symm
  | w :: ws, ws' => (congrArg (w + ·) (sumOf_append ws ws')).trans (Nat.add_assoc _ _ _).symm

theorem sumOf_perm {ws ws' : List Nat} (h : ws.Perm ws') : sumOf ws = sumOf ws' := by
  induction h with
  | nil => rfl
  | cons w _ ih => exact congrArg (w + ·) ih
  | swap w v ws => exact Nat.add_left_comm v w _
  | trans _ _ ih ih' => exact ih.trans ih'

@[simp] theorem entriesOf_nil (k : κ) : entriesOf ([] : List (κ × Nat)) k = [] := rfl

theorem entriesOf_cons (e : κ × Nat) (es : List (κ × Nat)) (k : κ) :
    entriesOf (e :: es) k = if e.1 = k then e :: entriesOf es k else entriesOf es k := by
  unfold entriesOf
  by_cases h : e.1 = k <;> simp [h]

theorem entriesOf_append (es es' : List (κ × Nat)) (k : κ) : entriesOf (es ++ es') k = entriesOf es k ++ entriesOf es' k :=
  List.filter_append _ _

theorem count_cons (e : κ × Nat) (es : List (κ × Nat)) (k : κ) :
    count (e :: es) k = count es k + if e.1 = k then 1 else 0 := by
  unfold count entriesOf
  by_cases h : e.1 = k <;> simp [h]

theorem weight_cons (e : κ × Nat) (es : List (κ × Nat)) (k : κ) :
    weight (e :: es) k = weight es k + if e.1 = k then e.2 else 0 := by
  unfold weight
  rw [entriesOf_cons]
  split
  · exact Nat.add_comm _ _
  · rfl

theorem count_append (es es' : List (κ × Nat)) (k : κ) : count (es ++ es') k = count es k + count es' k := by
  simp [count, entriesOf]

theorem weight_append (es es' : List (κ × Nat)) (k : κ) : weight (es ++ es') k = weight es k + weight es' k := by
  simp [weight, entriesOf, sumOf_append]

theorem count_perm (h : es.Perm es') (k : κ) : count es k = count es' k := (h.filter _).length_eq

theorem weight_perm (h : es.Perm es') (k : κ) : weight es k = weight es' k := sumOf_perm ((h.filter _).map _)

theorem weight_eq_zero (h : count es k = 0) : weight es k = 0 := by
  unfold weight
  rw [List.length_eq_zero_iff.1 h]
  rfl

theorem count_pos : 0 < count es k ↔ k ∈ es.map Prod.fst := by
  rw [count, List.length_pos_iff_exists_mem, List.mem_map]
  simp [entriesOf]

def add (t : Tally κ) (k : κ) (w : Nat) : Tally κ :=
  match t.get k with
  | none => t.upsert ⟨k, 1, w⟩
  | some r => t.upsert ⟨k, r.total + 1, r.hits + w⟩

/-- Takes away in place: a key without a row stays without one. -/
def sub (t : Tally κ) (k : κ) (w : Nat) : Tally κ :=
  match t.get k with
  | none => t
  | some r => t.upsert ⟨k, r.total - 1, r.hits - w⟩

def sweep (t : Tally κ) : Tally κ := t.filter fun r => decide (0 < r.total)

/-- A row for each key of the entries. -/
def grouped (es : List (κ × Nat)) : List (TallyRow κ) :=
  (es.map Prod.fst).dedup.map fun k => ⟨k, count es k, weight es k⟩

/-- Inserts rows of new keys; an old key fails. -/
def insertNew (t : Tally κ) (rows : List (TallyRow κ)) : Option (Tally κ) :=
  if rows.all fun r => (t.get r.key).isNone then some (t.upsertAll rows) else none

structure Counts (t : Tally κ) (es : List (κ × Nat)) : Prop where
  row : ∀ k r, t.get k = some r → r.total = count es k ∧ r.hits = weight es k
  absent : ∀ k, t.get k = none → count es k = 0

namespace Counts

theorem empty : Counts (Table.empty : Tally κ) [] := ⟨fun _ _ h => by (cases h), fun _ _ => rfl⟩

theorem perm (h : Counts t es) (hp : es.Perm es') : Counts t es' where
  row k r hr := count_perm hp k ▸ weight_perm hp k ▸ h.row k r hr
  absent k hk := count_perm hp k ▸ h.absent k hk

theorem add (h : Counts t es) (k : κ) (w : Nat) : Counts (t.add k w) ((k, w) :: es) := by
  have hget : ∀ j, (t.add k w).get j =
      if j = k then some ⟨k, (count es k : Int) + 1, (weight es k : Int) + w⟩ else t.get j := by
    intro j
    unfold Tally.add
    cases hk : t.get k with
    | none =>
      have hc := h.absent k hk
      simp [hc, weight_eq_zero hc]
    | some r =>
      obtain ⟨htotal, hhits⟩ := h.row k r hk
      simp [htotal, hhits]
  constructor
  · intro j r hr
    rw [hget] at hr
    rw [count_cons, weight_cons]
    split at hr
    · rename_i hj
      cases hr
      simp [hj]
    · rename_i hj
      simpa [Ne.symm hj] using h.row j r hr
  · intro j hj
    rw [hget] at hj
    split at hj
    · cases hj
    · rename_i hne
      simpa [count_cons, Ne.symm hne] using h.absent j hj

theorem sub (h : Counts t ((k, w) :: es)) : Counts (t.sub k w) es := by
  have hpos : count ((k, w) :: es) k ≠ 0 := by simp [count_cons]
  obtain ⟨r, hr⟩ := Option.ne_none_iff_exists'.1 fun hn => hpos (h.absent k hn)
  obtain ⟨htotal, hhits⟩ := h.row k r hr
  simp only [count_cons, weight_cons, if_true] at htotal hhits
  have hget : ∀ j, (t.sub k w).get j = if j = k then some ⟨k, count es k, weight es k⟩ else t.get j := by
    intro j
    unfold Tally.sub
    rw [hr]
    simp [htotal, hhits]
  constructor
  · intro j r' hr'
    rw [hget] at hr'
    split at hr'
    · rename_i hj
      cases hr'
      simp [hj]
    · rename_i hj
      simpa [count_cons, weight_cons, Ne.symm hj] using h.row j r' hr'
  · intro j hj
    rw [hget] at hj
    split at hj
    · cases hj
    · rename_i hne
      simpa [count_cons, Ne.symm hne] using h.absent j hj

theorem sweep (h : Counts t es) : Counts t.sweep es := by
  have hget : ∀ k, t.sweep.get k = (t.get k).filter fun r => decide (0 < r.total) := Table.get_filter t _
  constructor
  · intro k r hr
    rw [hget, Option.filter_eq_some_iff] at hr
    exact h.row k r hr.1
  · intro k hk
    rw [hget, Option.filter_eq_none_iff] at hk
    cases hr : t.get k with
    | none => exact h.absent k hr
    | some r =>
      have := hk r hr
      have := (h.row k r hr).1
      simp at *
      omega

/-- **Grouped rows of new keys** count their entries too. -/
theorem insertNew (h : Counts t es) (es' : List (κ × Nat)) (hnew : ∀ k ∈ es'.map Prod.fst, t.get k = none) :
    ∃ t', t.insertNew (grouped es') = some t' ∧ Counts t' (es ++ es') ∧
      ∀ k, t'.get k = none ↔ t.get k = none ∧ k ∉ es'.map Prod.fst := by
  have hkeys : (grouped es').map TallyRow.key = (es'.map Prod.fst).dedup := by
    unfold grouped
    rw [List.map_map]
    exact List.map_id' _
  have hnodup : ((grouped es').map TallyRow.key).Nodup := hkeys ▸ List.nodup_dedup _
  have hget : ∀ k, (t.upsertAll (grouped es')).get k =
      if k ∈ es'.map Prod.fst then some ⟨k, count es' k, weight es' k⟩ else t.get k := by
    intro k
    split
    · rename_i hk
      exact Table.get_upsertAll_of_nodup hnodup (List.mem_map.2 ⟨k, List.mem_dedup.2 hk, rfl⟩) t
    · rename_i hk
      refine Table.get_upsertAll_of_not_mem (fun r hr he => hk ?_) t
      rw [← List.mem_dedup, ← hkeys]
      exact List.mem_map.2 ⟨r, hr, he⟩
  have hall : (grouped es').all (fun r => (t.get r.key).isNone) = true := by
    refine List.all_eq_true.2 fun r hr => ?_
    rw [hnew r.key (List.mem_dedup.1 (hkeys ▸ List.mem_map_of_mem hr))]
    rfl
  refine ⟨_, if_pos hall, ⟨fun k r hr => ?_, fun k hk => ?_⟩, fun k => ?_⟩
  · rw [hget] at hr
    rw [count_append, weight_append]
    split at hr
    · rename_i hk
      cases hr
      have hc := h.absent k (hnew k hk)
      simp [hc, weight_eq_zero hc]
    · rename_i hk
      have hc : count es' k = 0 := Nat.eq_zero_of_not_pos fun hp => hk (count_pos.1 hp)
      simpa [hc, weight_eq_zero hc] using h.row k r hr
  · rw [hget] at hk
    split at hk
    · cases hk
    · rename_i hmem
      rw [count_append, h.absent k hk, Nat.zero_add]
      exact Nat.eq_zero_of_not_pos fun hp => hmem (count_pos.1 hp)
  · rw [hget]
    split <;> simp [*]

/-- Entries of the `n`-th region are new to a tally of the regions before it. -/
theorem insertNext (h : Counts t es) (es' : List (κ × Nat)) (region : κ → Nat) (n : Nat)
    (hbelow : ∀ k, t.get k ≠ none → region k < n) (hes' : ∀ k ∈ es'.map Prod.fst, region k = n) :
    ∃ t', t.insertNew (grouped es') = some t' ∧ Counts t' (es ++ es') ∧ ∀ k, t'.get k ≠ none → region k < n + 1 := by
  obtain ⟨t', ht', hcounts, hnone⟩ := h.insertNew es' fun k hk => by
    by_contra hsome
    have := hbelow k hsome
    have := hes' k hk
    omega
  refine ⟨t', ht', hcounts, fun k hsome => ?_⟩
  rw [Ne, hnone, not_and, not_not] at hsome
  by_cases hk : t.get k = none
  · have := hes' k (hsome hk)
    omega
  · have := hbelow k hk
    omega

/-- **The rows with a positive total are the groups.** -/
theorem mem_rows_iff (h : Counts t es) {r : TallyRow κ} (hr : 0 < r.total) : r ∈ t.rows ↔
    r.key ∈ es.map Prod.fst ∧ r.total = count es r.key ∧ r.hits = weight es r.key := by
  rw [Table.mem_rows_iff]
  constructor
  · intro hget
    obtain ⟨htotal, hhits⟩ := h.row r.key r hget
    exact ⟨count_pos.1 (by omega), htotal, hhits⟩
  · rintro ⟨hmem, htotal, hhits⟩
    obtain ⟨r', hr'⟩ := Option.ne_none_iff_exists'.1 fun hn => Nat.ne_of_gt (count_pos.2 hmem) (h.absent r.key hn)
    obtain ⟨htotal', hhits'⟩ := h.row r.key r' hr'
    rw [hr']
    have hkey : r'.key = r.key := Table.key_of_get hr'
    obtain ⟨k, total, hits⟩ := r
    obtain ⟨k', total', hits'⟩ := r'
    simp_all

theorem nonneg (h : Counts t es) {r : TallyRow κ} (hr : r ∈ t.rows) : 0 ≤ r.total ∧ 0 ≤ r.hits := by
  obtain ⟨htotal, hhits⟩ := h.row r.key r (Table.mem_rows_iff.1 hr)
  omega

end Counts

/-! ## Sums over keys -/

theorem sum_ite_eq {ks : List κ} (h : ks.Nodup) (a : κ) (w : Nat) :
    sumOf (ks.map fun k => if a = k then w else 0) = if a ∈ ks then w else 0 := by
  induction ks with
  | nil => rfl
  | cons k ks ih =>
    obtain ⟨hk, hks⟩ := List.nodup_cons.1 h
    have hcons : sumOf ((k :: ks).map fun k => if a = k then w else 0) =
        (if a = k then w else 0) + sumOf (ks.map fun k => if a = k then w else 0) := rfl
    rw [hcons, ih hks]
    by_cases ha : a = k
    · simp [ha, hk]
    · simp [ha]

/-- The entries of different keys, summed by key. -/
theorem sum_weight {ks : List κ} (h : ks.Nodup) (es : List (κ × Nat)) :
    sumOf (ks.map (count es)) = (es.filter fun e => decide (e.1 ∈ ks)).length ∧
      sumOf (ks.map (weight es)) = sumOf ((es.filter fun e => decide (e.1 ∈ ks)).map Prod.snd) := by
  have hzero : ∀ ks : List κ, sumOf (ks.map fun _ => 0) = 0 := fun ks => by
    induction ks with
    | nil => rfl
    | cons k ks ih => exact (Nat.zero_add _).trans ih
  have hadd : ∀ (ks : List κ) (f g : κ → Nat), sumOf (ks.map fun k => f k + g k) = sumOf (ks.map f) + sumOf (ks.map g) := by
    intro ks f g
    induction ks with
    | nil => rfl
    | cons k ks ih =>
      simp only [List.map_cons, sumOf, List.foldr_cons] at ih ⊢
      omega
  induction es with
  | nil => exact ⟨hzero ks, hzero ks⟩
  | cons e es ih =>
    have hcount : count (e :: es) = fun k => count es k + if e.1 = k then 1 else 0 := funext (count_cons e es)
    have hweight : weight (e :: es) = fun k => weight es k + if e.1 = k then e.2 else 0 := funext (weight_cons e es)
    rw [hcount, hweight, hadd, hadd, sum_ite_eq h, sum_ite_eq h, ih.1, ih.2, List.filter_cons]
    by_cases he : e.1 ∈ ks <;> simp [he, sumOf, Nat.add_comm]

namespace Counts

/-- **What the counted rows of some keys add up to** is how many their entries are, and what they weigh. -/
theorem sum_rows (h : Counts t es) (p : κ → Bool) :
    sumOfInts ((t.rows.filter fun r => p r.key && decide (0 < r.total)).map TallyRow.total) =
      (es.filter fun e => p e.1).length ∧
    sumOfInts ((t.rows.filter fun r => p r.key && decide (0 < r.total)).map TallyRow.hits) =
      sumOf ((es.filter fun e => p e.1).map Prod.snd) := by
  let rows := t.rows.filter fun r => p r.key && decide (0 < r.total)
  let ks := rows.map TallyRow.key
  have hnodup : ks.Nodup := (List.filter_sublist.map TallyRow.key).nodup t.keysNodup
  have hrow : ∀ r ∈ rows, r.total = count es r.key ∧ r.hits = weight es r.key := fun r hr =>
    h.row r.key r (Table.mem_rows_iff.1 (List.mem_filter.1 hr).1)
  have hkeys : ∀ e ∈ es, (decide (e.1 ∈ ks)) = p e.1 := by
    intro e he
    rw [Bool.eq_iff_iff, decide_eq_true_iff]
    have hmem : e.1 ∈ es.map Prod.fst := List.mem_map.2 ⟨e, he, rfl⟩
    constructor
    · intro hk
      obtain ⟨r, hr, hre⟩ := List.mem_map.1 hk
      have := (List.mem_filter.1 hr).2
      rw [Bool.and_eq_true, hre] at this
      exact this.1
    · intro hp
      have hpos : 0 < count es e.1 := count_pos.2 hmem
      have hin : (⟨e.1, count es e.1, weight es e.1⟩ : TallyRow κ) ∈ t.rows :=
        (h.mem_rows_iff (Int.natCast_pos.2 hpos)).2 ⟨hmem, rfl, rfl⟩
      exact List.mem_map.2 ⟨_, List.mem_filter.2 ⟨hin, by simp [hp, hpos]⟩, rfl⟩
  have hcast : ∀ (f : κ → Nat) (l : List (TallyRow κ)) (g : TallyRow κ → Int), (∀ r ∈ l, g r = f r.key) →
      sumOfInts (l.map g) = (sumOf ((l.map TallyRow.key).map f) : Nat) := by
    intro f l g hg
    induction l with
    | nil => rfl
    | cons r l ih =>
      have hcons : sumOfInts ((r :: l).map g) = g r + sumOfInts (l.map g) := rfl
      rw [hcons, hg r List.mem_cons_self, ih fun r' hr' => hg r' (List.mem_cons_of_mem r hr')]
      exact (Int.natCast_add _ _).symm
  obtain ⟨hcount, hweight⟩ := sum_weight hnodup es
  rw [List.filter_congr hkeys] at hcount hweight
  constructor
  · rw [hcast (count es) rows TallyRow.total fun r hr => (hrow r hr).1, hcount]
  · rw [hcast (weight es) rows TallyRow.hits fun r hr => (hrow r hr).2, hweight]

end Counts
end Tally
end Lib
