import Mathlib.Algebra.GroupWithZero.Nat
import Mathlib.Algebra.Order.BigOperators.Group.Finset
import RepoWatch.Lib.Loop
import RepoWatch.Lib.Table
/-!
# Lib.Ledger — things charged to accounts

Each thing of a list is charged to one account or to none.  The charges of all accounts and what is charged to none make up
the whole (`sum_charged`), and they depend on no order.  What a group reaches is the union of what its members reach, which
weighs at most their sum (`sum_biUnion_le`) and at least each of them.
-/
namespace Lib

namespace Dict
variable {κ ν : Type} [DecidableEq κ]

/-- `d.setdefault(k, v)`. -/
def setdefault (d : Dict κ ν) (k : κ) (v : ν) : Dict κ ν := d.insertOrIgnore (k, v)

/-- Change the value of a key in place. -/
def modify (d : Dict κ ν) (k : κ) (f : ν → ν) : Dict κ ν :=
  match d.lookup k with
  | none => d
  | some v => d.set k (f v)

@[simp] theorem lookup_setdefault (d : Dict κ ν) (k j : κ) (v : ν) :
    (d.setdefault k v).lookup j = if j = k then some ((d.lookup j).getD v) else d.lookup j := by
  unfold lookup setdefault
  rw [Table.get_insertOrIgnore]
  split
  · cases d.get j <;> rfl
  · rfl

@[simp] theorem lookup_modify (d : Dict κ ν) (k j : κ) (f : ν → ν) :
    (d.modify k f).lookup j = if j = k then (d.lookup j).map f else d.lookup j := by
  unfold modify
  by_cases hj : j = k
  · subst hj
    rw [if_pos rfl]
    cases h : d.lookup j with
    | none => exact h
    | some v => simp
  · rw [if_neg hj]
    cases d.lookup k with
    | none => rfl
    | some v => exact (lookup_set d k j (f v)).trans (if_neg hj)

theorem keys_set_of_mem {d : Dict κ ν} {k : κ} (h : k ∈ d.keys) (v : ν) : (d.set k v).keys = d.keys :=
  (map_upsertRow Prod.fst (k, v) d.rows).trans (if_pos h)

theorem keys_set_of_not_mem {d : Dict κ ν} {k : κ} (h : k ∉ d.keys) (v : ν) : (d.set k v).keys = d.keys ++ [k] :=
  (map_upsertRow Prod.fst (k, v) d.rows).trans (if_neg h)

@[simp] theorem keys_modify (d : Dict κ ν) (k : κ) (f : ν → ν) : (d.modify k f).keys = d.keys := by
  unfold modify
  cases h : d.lookup k with
  | none => rfl
  | some v => exact keys_set_of_mem (mem_keys_of_lookup h) _

theorem keys_setdefault_of_mem {d : Dict κ ν} {k : κ} (h : k ∈ d.keys) (v : ν) : (d.setdefault k v).keys = d.keys := by
  unfold setdefault Table.insertOrIgnore
  rw [if_pos (Table.mem_keys_iff.1 h)]

theorem keys_setdefault_of_not_mem {d : Dict κ ν} {k : κ} (h : k ∉ d.keys) (v : ν) :
    (d.setdefault k v).keys = d.keys ++ [k] := by
  unfold setdefault Table.insertOrIgnore
  rw [if_neg fun hk => h (Table.mem_keys_iff.2 hk)]
  exact keys_set_of_not_mem h v

omit [DecidableEq κ] in
theorem nodup_keys (d : Dict κ ν) : d.keys.Nodup := d.keysNodup

/-- The rows of a dictionary, from its keys. -/
theorem rows_eq_map {d : Dict κ ν} {g : κ → ν} (h : ∀ k ∈ d.keys, d.lookup k = some (g k)) :
    d.rows = d.keys.map fun k => (k, g k) := by
  unfold keys
  rw [List.map_map]
  refine (List.map_id d.rows).symm.trans (List.map_congr_left fun row hrow => ?_)
  have hrow' : d.lookup row.1 = some row.2 := lookup_eq_some_iff.2 hrow
  rw [h row.1 (List.mem_map_of_mem hrow), Option.some.injEq] at hrow'
  exact Prod.ext rfl hrow'.symm

theorem lookup_ofPairs_map {l : List κ} {k : κ} (h : k ∈ l) (v : ν) : (ofPairs (l.map fun j => (j, v))).lookup k = some v :=
  lookup_ofPairs_eq_some (by rwa [List.map_map, show Prod.fst ∘ (fun j : κ => (j, v)) = id from rfl, List.map_id])
    fun _ hp _ => by
      obtain ⟨_, -, rfl⟩ := List.mem_map.1 hp
      rfl

theorem keys_ofPairs_map {l : List κ} (h : l.Nodup) (v : ν) : (ofPairs (l.map fun j => (j, v))).keys = l := by
  have hkeys : (l.map fun j => (j, v)).map Prod.fst = l := by
    rw [List.map_map, show Prod.fst ∘ (fun j : κ => (j, v)) = id from rfl, List.map_id]
  unfold keys
  rw [rows_ofPairs (hkeys.symm ▸ h), hkeys]

/-- The things of a list in the order in which they are first seen. -/
def firstSeen (l : List κ) : List κ := l.foldl (fun seen k => if k ∈ seen then seen else seen ++ [k]) []

theorem firstSeen_concat_of_mem {l : List κ} {k : κ} (h : k ∈ firstSeen l) : firstSeen (l ++ [k]) = firstSeen l := by
  unfold firstSeen at h ⊢
  rw [List.foldl_append]
  exact if_pos h

theorem firstSeen_concat_of_not_mem {l : List κ} {k : κ} (h : k ∉ firstSeen l) :
    firstSeen (l ++ [k]) = firstSeen l ++ [k] := by
  unfold firstSeen at h ⊢
  rw [List.foldl_append]
  exact if_neg h

theorem mem_firstSeen {l : List κ} {k : κ} : k ∈ firstSeen l ↔ k ∈ l := by
  induction l using List.reverseRecOn with
  | nil => rfl
  | append_singleton l j ih =>
    rw [List.mem_append, List.mem_singleton]
    by_cases hj : j ∈ firstSeen l
    · rw [firstSeen_concat_of_mem hj, ih]
      refine ⟨Or.inl, fun h => h.elim id ?_⟩
      rintro rfl
      exact ih.1 hj
    · rw [firstSeen_concat_of_not_mem hj, List.mem_append, List.mem_singleton, ih]

theorem nodup_firstSeen (l : List κ) : (firstSeen l).Nodup := by
  induction l using List.reverseRecOn with
  | nil => exact List.nodup_nil
  | append_singleton l j ih =>
    by_cases hj : j ∈ firstSeen l
    · rwa [firstSeen_concat_of_mem hj]
    · rw [firstSeen_concat_of_not_mem hj]
      exact List.nodup_append.2 ⟨ih, List.nodup_singleton j, fun a ha b hb hab => hj (by
        rw [List.mem_singleton] at hb
        rwa [← hb, ← hab])⟩

/-- **Changing each key once**: the value of a key is changed by what stands for it. -/
theorem lookup_foldl_modify {β : Type} (f : β → ν → ν) : ∀ {rows : List (κ × β)}, (rows.map Prod.fst).Nodup →
    ∀ (d : Dict κ ν) {k : κ} {b : β}, (k, b) ∈ rows →
      (rows.foldl (fun d row => d.modify row.1 (f row.2)) d).lookup k = (d.lookup k).map (f b)
  | row :: rows, hnd, d, k, b, h => by
    rw [List.map_cons, List.nodup_cons] at hnd
    have hother : ∀ (rows : List (κ × β)) (d : Dict κ ν), k ∉ rows.map Prod.fst →
        (rows.foldl (fun d row => d.modify row.1 (f row.2)) d).lookup k = d.lookup k := by
      intro rows
      induction rows with
      | nil => exact fun _ _ => rfl
      | cons row rows ih =>
        intro d hk
        rw [List.map_cons, List.mem_cons, not_or] at hk
        rw [List.foldl_cons, ih _ hk.2, lookup_modify, if_neg hk.1]
    rw [List.foldl_cons]
    rcases List.mem_cons.1 h with rfl | h
    · rw [hother rows _ hnd.1, lookup_modify, if_pos rfl]
    · have hne : k ≠ row.1 := fun e => hnd.1 (e ▸ List.mem_map_of_mem h)
      rw [lookup_foldl_modify f hnd.2 _ h, lookup_modify, if_neg hne]

theorem keys_foldl_modify {β : Type} (f : β → ν → ν) : ∀ (rows : List (κ × β)) (d : Dict κ ν),
    (rows.foldl (fun d row => d.modify row.1 (f row.2)) d).keys = d.keys
  | [], _ => rfl
  | _ :: rows, d => (keys_foldl_modify f rows _).trans (keys_modify d _ _)

end Dict

section Charges
variable {α κ : Type} [DecidableEq κ] (account : α → Option κ) (weight : α → Nat)

/-- What is charged to an account, or to none. -/
def charged (l : List α) (k : Option κ) : Nat := ((l.filter fun a => decide (account a = k)).map weight).sum

variable {account weight}

@[simp] theorem charged_nil (k : Option κ) : charged account weight [] k = 0 := rfl

theorem charged_cons (a : α) (l : List α) (k : Option κ) :
    charged account weight (a :: l) k = (if account a = k then weight a else 0) + charged account weight l k := by
  unfold charged
  by_cases h : account a = k
  · rw [List.filter_cons_of_pos (by simpa using h), List.map_cons, List.sum_cons, if_pos h]
  · rw [List.filter_cons_of_neg (by simpa using h), if_neg h, Nat.zero_add]

theorem charged_append (l l' : List α) (k : Option κ) :
    charged account weight (l ++ l') k = charged account weight l k + charged account weight l' k := by
  unfold charged
  rw [List.filter_append, List.map_append, List.sum_append]

theorem charged_singleton (a : α) (k : Option κ) :
    charged account weight [a] k = if account a = k then weight a else 0 := by
  rw [charged_cons, charged_nil, Nat.add_zero]

theorem charged_perm {l l' : List α} (h : l.Perm l') (k : Option κ) : charged account weight l k = charged account weight l' k :=
  ((h.filter _).map _).sum_eq

/-- One thing is charged once over different accounts. -/
theorem sum_single {ks : List κ} (hnd : ks.Nodup) (o : Option κ) (w : Nat) (ho : ∀ k, o = some k → k ∈ ks) :
    (ks.map fun k => if o = some k then w else 0).sum + (if o = none then w else 0) = w := by
  cases o with
  | none =>
    rw [if_pos rfl, List.sum_eq_zero (by simp), Nat.zero_add]
  | some j =>
    rw [if_neg (Option.some_ne_none j), Nat.add_zero]
    have hj := ho j rfl
    clear ho
    induction ks with
    | nil => cases hj
    | cons k ks ih =>
      rw [List.nodup_cons] at hnd
      rw [List.map_cons, List.sum_cons]
      by_cases hk : j = k
      · subst hk
        have hrest : ∀ k ∈ ks, (if some j = some k then w else 0) = 0 := fun k hk => if_neg fun h => hnd.1 (by
          cases h
          exact hk)
        rw [if_pos rfl, List.map_congr_left hrest, List.sum_eq_zero (by simp), Nat.add_zero]
      · rw [if_neg fun h => hk (Option.some.inj h), Nat.zero_add]
        exact ih hnd.2 ((List.mem_cons.1 hj).resolve_left hk)

/-- **Nothing is lost or counted twice**: what is charged to the accounts and to none is everything. -/
theorem sum_charged {ks : List κ} (hnd : ks.Nodup) : ∀ {l : List α}, (∀ a ∈ l, ∀ k, account a = some k → k ∈ ks) →
    (ks.map fun k => charged account weight l (some k)).sum + charged account weight l none = (l.map weight).sum
  | [], _ => by
    exact List.sum_eq_zero (by simp)
  | a :: l, h => by
    rw [List.forall_mem_cons] at h
    have ih := sum_charged hnd h.2
    have hone := sum_single hnd (account a) (weight a) h.1
    have hsplit : (ks.map fun k => charged account weight (a :: l) (some k)).sum =
        (ks.map fun k => if account a = some k then weight a else 0).sum +
          (ks.map fun k => charged account weight l (some k)).sum := by
      rw [← List.sum_map_add]
      exact congrArg List.sum (List.map_congr_left fun k _ => charged_cons a l (some k))
    rw [hsplit, charged_cons, List.map_cons, List.sum_cons]
    omega

end Charges

section Reach
variable {α κ : Type} [DecidableEq κ] [DecidableEq α]

theorem sum_union_le (s t : Finset κ) (w : κ → Nat) : ∑ k ∈ s ∪ t, w k ≤ ∑ k ∈ s, w k + ∑ k ∈ t, w k := by
  rw [← Finset.sum_union_inter]
  exact Nat.le_add_right _ _

/-- **What members reach together** weighs at most what they reach one by one. -/
theorem sum_biUnion_le (reach : α → Finset κ) (w : κ → Nat) : ∀ l : List α,
    ∑ k ∈ l.toFinset.biUnion reach, w k ≤ (l.map fun a => ∑ k ∈ reach a, w k).sum
  | [] => Nat.le_refl _
  | a :: l => by
    rw [List.toFinset_cons, Finset.biUnion_insert, List.map_cons, List.sum_cons]
    exact (sum_union_le _ _ w).trans (Nat.add_le_add_left (sum_biUnion_le reach w l) _)

theorem sum_le_biUnion (reach : α → Finset κ) (w : κ → Nat) {l : List α} {a : α} (h : a ∈ l) :
    ∑ k ∈ reach a, w k ≤ ∑ k ∈ l.toFinset.biUnion reach, w k :=
  Finset.sum_le_sum_of_subset (Finset.subset_biUnion_of_mem reach (List.mem_toFinset.2 h))

end Reach
end Lib
