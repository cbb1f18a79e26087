import Mathlib.Data.List.Basic
import Mathlib.Data.List.Nodup
/-!
# Lib.Table — rows under a unique key

A table is a list of rows whose keys are pairwise different: the primary key of a store, or the keys of a dictionary.
`upsert` replaces the row of its key in place or appends it, `delete` drops the row of a key, and everything a caller
needs is said by what `get` answers afterwards (`get_upsert`, `get_delete`, `get_upsertAll`).  The order of the rows is
the order of a scan; no lemma here depends on it.
-/
namespace Lib

/-- Replace the row of `r`'s key in place, or append `r`. -/
def upsertRow {ρ κ : Type} [DecidableEq κ] (key : ρ → κ) (r : ρ) : List ρ → List ρ
  | [] => [r]
  | x :: xs => if key x = key r then r :: xs else x :: upsertRow key r xs

section Rows
variable {ρ κ : Type} [DecidableEq κ] (key : ρ → κ)

theorem map_upsertRow (r : ρ) : ∀ l : List ρ,
    (upsertRow key r l).map key = if key r ∈ l.map key then l.map key else l.map key ++ [key r]
  | [] => by simp [upsertRow]
  | x :: xs => by
    unfold upsertRow
    split
    · rename_i h; simp [h]
    · rename_i h
      rw [List.map_cons, map_upsertRow r xs]
      have hne : key r ≠ key x := fun e => h e.symm
      by_cases hm : key r ∈ xs.map key
      · simp [hm]
      · simp [hm, hne]

theorem nodup_upsertRow (r : ρ) (l : List ρ) (h : (l.map key).Nodup) : ((upsertRow key r l).map key).Nodup := by
  rw [map_upsertRow]
  split
  · exact h
  · rename_i hm
    exact List.nodup_append.2 ⟨h, by simp, fun a ha b hb => by
      rw [List.mem_singleton] at hb
      subst hb
      exact fun e => hm (e ▸ ha)⟩

theorem find?_upsertRow (r : ρ) (k : κ) : ∀ l : List ρ, (l.map key).Nodup →
    (upsertRow key r l).find? (fun x => decide (key x = k)) =
      if k = key r then some r else l.find? (fun x => decide (key x = k))
  | [], _ => by
    by_cases hk : k = key r
    · simp [upsertRow, hk]
    · simp [upsertRow, hk, Ne.symm hk]
  | x :: xs, h => by
    rw [List.map_cons, List.nodup_cons] at h
    unfold upsertRow
    by_cases hx : key x = key r
    · rw [if_pos hx, List.find?_cons, List.find?_cons]
      by_cases hk : k = key r
      · simp [hk]
      · have h1 : ¬ key r = k := fun e => hk e.symm
        simp [hk, h1, hx]
    · rw [if_neg hx, List.find?_cons, List.find?_cons, find?_upsertRow r k xs h.2]
      by_cases hk : k = key r
      · subst hk; simp [hx]
      · simp [hk]

/-- A row that is there already is replaced by itself. -/
theorem upsertRow_of_find? (r : ρ) : ∀ l : List ρ, l.find? (fun x => decide (key x = key r)) = some r →
    upsertRow key r l = l
  | x :: xs, h => by
    rw [List.find?_cons] at h
    unfold upsertRow
    by_cases hx : key x = key r
    · simp only [hx, decide_true, Option.some.injEq] at h
      rw [if_pos hx, h]
    · simp only [hx, decide_false] at h
      rw [if_neg hx, upsertRow_of_find? r xs h]

end Rows

/-- Rows with pairwise different keys. -/
structure Table (ρ κ : Type) (key : ρ → κ) where
  rows : List ρ
  keysNodup : (rows.map key).Nodup

namespace Table
variable {ρ κ : Type} {key : ρ → κ}

def empty : Table ρ κ key := ⟨[], List.nodup_nil⟩

/-- The rows that satisfy `p`. -/
def filter (t : Table ρ κ key) (p : ρ → Bool) : Table ρ κ key :=
  ⟨t.rows.filter p, (List.filter_sublist.map key).nodup t.keysNodup⟩

/-- Change rows in place; no change may move a row to another key. -/
def update (t : Table ρ κ key) (f : ρ → ρ) (hf : ∀ r, key (f r) = key r) : Table ρ κ key :=
  ⟨t.rows.map f, by
    have hkeys : key ∘ f = key := funext hf
    rw [List.map_map, hkeys]
    exact t.keysNodup⟩

@[simp] theorem filter_rows (t : Table ρ κ key) (p : ρ → Bool) : (t.filter p).rows = t.rows.filter p := rfl

variable [DecidableEq κ]

/-- The row of a key. -/
def get (t : Table ρ κ key) (k : κ) : Option ρ := t.rows.find? (fun r => decide (key r = k))

def upsert (t : Table ρ κ key) (r : ρ) : Table ρ κ key :=
  ⟨upsertRow key r t.rows, nodup_upsertRow key r t.rows t.keysNodup⟩

def delete (t : Table ρ κ key) (k : κ) : Table ρ κ key := t.filter (fun r => decide (key r ≠ k))

/-- `INSERT OR IGNORE`. -/
def insertOrIgnore (t : Table ρ κ key) (r : ρ) : Table ρ κ key := if (t.get (key r)).isSome then t else t.upsert r

def upsertAll (t : Table ρ κ key) (l : List ρ) : Table ρ κ key := l.foldl upsert t

def deleteAll (t : Table ρ κ key) (ks : List κ) : Table ρ κ key := ks.foldl delete t

theorem key_of_get {t : Table ρ κ key} {k : κ} {r : ρ} (h : t.get k = some r) : key r = k := by
  simpa using List.find?_some h

theorem mem_of_get {t : Table ρ κ key} {k : κ} {r : ρ} (h : t.get k = some r) : r ∈ t.rows :=
  List.mem_of_find?_eq_some h

theorem find?_key_of_mem : ∀ (l : List ρ) (r : ρ), (l.map key).Nodup → r ∈ l →
    l.find? (fun x => decide (key x = key r)) = some r
  | x :: xs, r, hnd, hr => by
    rw [List.map_cons, List.nodup_cons] at hnd
    rw [List.find?_cons]
    rcases List.mem_cons.1 hr with rfl | hr
    · simp
    · have hne : key x ≠ key r := fun e => hnd.1 (e ▸ List.mem_map_of_mem hr)
      simp [hne, find?_key_of_mem xs r hnd.2 hr]

theorem get_of_mem {t : Table ρ κ key} {r : ρ} (h : r ∈ t.rows) : t.get (key r) = some r :=
  find?_key_of_mem t.rows r t.keysNodup h

theorem mem_rows_iff {t : Table ρ κ key} {r : ρ} : r ∈ t.rows ↔ t.get (key r) = some r :=
  ⟨get_of_mem, mem_of_get⟩

theorem get_eq_some_iff {t : Table ρ κ key} {k : κ} {r : ρ} : t.get k = some r ↔ r ∈ t.rows ∧ key r = k :=
  ⟨fun h => ⟨mem_of_get h, key_of_get h⟩, fun ⟨h, hk⟩ => hk ▸ get_of_mem h⟩

theorem get_eq_none_iff {t : Table ρ κ key} {k : κ} : t.get k = none ↔ ∀ r ∈ t.rows, key r ≠ k := by
  simp [get, List.find?_eq_none]

theorem mem_keys_iff {t : Table ρ κ key} {k : κ} : k ∈ t.rows.map key ↔ (t.get k).isSome := by
  rw [Option.isSome_iff_exists, List.mem_map]
  exact ⟨fun ⟨r, hr, hk⟩ => ⟨r, get_eq_some_iff.2 ⟨hr, hk⟩⟩, fun ⟨r, hr⟩ => ⟨r, mem_of_get hr, key_of_get hr⟩⟩

@[simp] theorem get_update (t : Table ρ κ key) (f : ρ → ρ) (hf : ∀ r, key (f r) = key r) (k : κ) :
    (t.update f hf).get k = (t.get k).map f := by
  unfold get update
  rw [List.find?_map]
  congr 2
  funext r
  rw [Function.comp_apply, hf]

@[simp] theorem get_empty (k : κ) : (empty : Table ρ κ key).get k = none := rfl

@[simp] theorem get_upsert (t : Table ρ κ key) (r : ρ) (k : κ) :
    (t.upsert r).get k = if k = key r then some r else t.get k :=
  find?_upsertRow key r k t.rows t.keysNodup

/-- A row of a new key is appended. -/
theorem keys_upsert {t : Table ρ κ key} {r : ρ} (h : t.get (key r) = none) :
    (t.upsert r).rows.map key = t.rows.map key ++ [key r] := by
  have hnew : key r ∉ t.rows.map key := by
    rw [mem_keys_iff, h]
    exact Bool.false_ne_true
  exact (map_upsertRow key r t.rows).trans (if_neg hnew)

theorem upsertRow_of_not_mem (r : ρ) : ∀ l : List ρ, (∀ x ∈ l, key x ≠ key r) → upsertRow key r l = l ++ [r]
  | [], _ => rfl
  | x :: xs, h => by
    unfold upsertRow
    rw [if_neg (h x List.mem_cons_self), upsertRow_of_not_mem r xs fun y hy => h y (List.mem_cons_of_mem _ hy)]
    rfl

theorem rows_upsert {t : Table ρ κ key} {r : ρ} (h : t.get (key r) = none) : (t.upsert r).rows = t.rows ++ [r] :=
  upsertRow_of_not_mem r t.rows (get_eq_none_iff.1 h)

theorem upsert_of_get {t : Table ρ κ key} {r : ρ} (h : t.get (key r) = some r) : t.upsert r = t := by
  unfold upsert
  congr 1
  exact upsertRow_of_find? key r t.rows h

theorem get_filter (t : Table ρ κ key) (p : ρ → Bool) (k : κ) : (t.filter p).get k = (t.get k).filter p := by
  cases h : t.get k with
  | none =>
    rw [Option.filter_none, get_eq_none_iff]
    exact fun r hr => get_eq_none_iff.1 h r (List.mem_filter.1 hr).1
  | some r =>
    obtain ⟨hr, hk⟩ := get_eq_some_iff.1 h
    by_cases hp : p r = true
    · rw [Option.filter_some, if_pos hp, get_eq_some_iff]
      exact ⟨List.mem_filter.2 ⟨hr, hp⟩, hk⟩
    · rw [Option.filter_some, if_neg hp, get_eq_none_iff]
      intro x hx hxk
      obtain ⟨hx, hpx⟩ := List.mem_filter.1 hx
      have : t.get k = some x := get_eq_some_iff.2 ⟨hx, hxk⟩
      rw [h, Option.some.injEq] at this
      exact hp (this ▸ hpx)

/-- Filtering by the key keeps or drops each key's row. -/
theorem get_filter_key (t : Table ρ κ key) (p : κ → Bool) (k : κ) :
    (t.filter fun r => p (key r)).get k = if p k then t.get k else none := by
  rw [get_filter]
  cases h : t.get k with
  | none => simp
  | some r => simp [key_of_get h, Option.filter_some]

theorem perm_cons_filter : ∀ (l : List ρ) (r : ρ), (l.map key).Nodup → r ∈ l →
    l.Perm (r :: l.filter fun x => decide (key x ≠ key r))
  | x :: xs, r, hnd, hr => by
    rw [List.map_cons, List.nodup_cons] at hnd
    rcases List.mem_cons.1 hr with rfl | hr
    · have hall : ∀ y ∈ xs, decide (key y ≠ key r) = true := fun y hy =>
        decide_eq_true fun e => hnd.1 (e ▸ List.mem_map_of_mem hy)
      rw [List.filter_cons_of_neg (by simp), List.filter_eq_self.2 hall]
    · have hne : key x ≠ key r := fun e => hnd.1 (e ▸ List.mem_map_of_mem hr)
      rw [List.filter_cons_of_pos (by simp [hne])]
      exact ((perm_cons_filter xs r hnd.2 hr).cons x).trans (List.Perm.swap _ _ _)

theorem perm_delete {t : Table ρ κ key} {r : ρ} (h : r ∈ t.rows) : t.rows.Perm (r :: (t.delete (key r)).rows) :=
  perm_cons_filter t.rows r t.keysNodup h

@[simp] theorem get_delete (t : Table ρ κ key) (k j : κ) :
    (t.delete k).get j = if j = k then none else t.get j := by
  rw [delete, get_filter_key t (fun x => decide (x ≠ k))]
  by_cases hj : j = k <;> simp [hj]

theorem get_deleteAll (k : κ) : ∀ (ks : List κ) (t : Table ρ κ key),
    (t.deleteAll ks).get k = if k ∈ ks then none else t.get k
  | [], t => by simp [deleteAll]
  | j :: ks, t => by
    have ih := get_deleteAll k ks (t.delete j)
    unfold deleteAll at ih ⊢
    rw [List.foldl_cons, ih, get_delete]
    by_cases hk : k ∈ ks <;> by_cases hj : k = j <;> simp [hk, hj]

/-- **Upserting rows one after another**: each key answers its last row, or what it answered before. -/
theorem get_upsertAll (k : κ) (l : List ρ) : ∀ t : Table ρ κ key,
    (t.upsertAll l).get k = (l.reverse.find? (fun r => decide (key r = k))).or (t.get k) := by
  induction l with
  | nil => exact fun t => by simp [upsertAll]
  | cons r l ih =>
    intro t
    have := ih (t.upsert r)
    unfold upsertAll at this ⊢
    rw [List.foldl_cons, this, get_upsert, List.reverse_cons, List.find?_append, Option.or_assoc]
    congr 1
    by_cases hk : k = key r
    · simp [hk]
    · simp [hk, Ne.symm hk]

theorem get_upsertAll_of_nodup {l : List ρ} (h : (l.map key).Nodup) {r : ρ} (hr : r ∈ l) (t : Table ρ κ key) :
    (t.upsertAll l).get (key r) = some r := by
  rw [get_upsertAll, find?_key_of_mem l.reverse r (by simpa using h) (by simpa using hr)]
  rfl

theorem get_upsertAll_of_not_mem {l : List ρ} {k : κ} (h : ∀ r ∈ l, key r ≠ k) (t : Table ρ κ key) :
    (t.upsertAll l).get k = t.get k := by
  rw [get_upsertAll, List.find?_eq_none.2 (fun r hr => by simpa using h r (List.mem_reverse.1 hr))]
  rfl

/-- Rows of new and different keys are appended. -/
theorem rows_upsertAll : ∀ {l : List ρ} {t : Table ρ κ key}, (l.map key).Nodup → (∀ r ∈ l, t.get (key r) = none) →
    (t.upsertAll l).rows = t.rows ++ l
  | [], t, _, _ => (List.append_nil _).symm
  | r :: l, t, hnd, hnew => by
    rw [List.map_cons, List.nodup_cons] at hnd
    have ih : ((t.upsert r).upsertAll l).rows = (t.upsert r).rows ++ l := rows_upsertAll hnd.2 fun x hx => by
      have hne : key x ≠ key r := fun h => hnd.1 (h ▸ List.mem_map_of_mem hx)
      rw [get_upsert, if_neg hne]
      exact hnew x (List.mem_cons_of_mem _ hx)
    rw [rows_upsert (hnew r List.mem_cons_self), List.append_assoc] at ih
    exact ih

theorem get_insertOrIgnore (t : Table ρ κ key) (r : ρ) (k : κ) :
    (t.insertOrIgnore r).get k = if k = key r then some ((t.get k).getD r) else t.get k := by
  unfold insertOrIgnore
  by_cases hk : k = key r
  · subst hk
    cases h : t.get (key r) with
    | none => simp
    | some old => simp [h]
  · rw [if_neg hk]
    split
    · rfl
    · rw [get_upsert, if_neg hk]

end Table

/-- A dictionary: keys to values, in insertion order. -/
abbrev Dict (κ ν : Type) := Table (κ × ν) κ Prod.fst

namespace Dict
variable {κ ν : Type} [DecidableEq κ]

def lookup (d : Dict κ ν) (k : κ) : Option ν := (d.get k).map Prod.snd

def set (d : Dict κ ν) (k : κ) (v : ν) : Dict κ ν := d.upsert (k, v)

def keys (d : Dict κ ν) : List κ := d.rows.map Prod.fst

/-- `dict` of pairs: a later pair of the same key replaces the value. -/
def ofPairs (l : List (κ × ν)) : Dict κ ν := Table.empty.upsertAll l

theorem rows_ofPairs {l : List (κ × ν)} (h : (l.map Prod.fst).Nodup) : (ofPairs l).rows = l :=
  (Table.rows_upsertAll h fun _ _ => rfl).trans (List.nil_append l)

theorem lookup_ofPairs_eq_some {l : List (κ × ν)} {k : κ} {v : ν} (hk : k ∈ l.map Prod.fst)
    (hv : ∀ p ∈ l, p.1 = k → p.2 = v) : (ofPairs l).lookup k = some v := by
  unfold lookup ofPairs
  rw [Table.get_upsertAll]
  obtain ⟨p, hp, hpk⟩ := List.mem_map.1 hk
  cases hf : l.reverse.find? (fun r => decide (r.1 = k)) with
  | none => exact absurd hpk (by simpa using List.find?_eq_none.1 hf p (List.mem_reverse.2 hp))
  | some q =>
    have hqk : q.1 = k := by simpa using List.find?_some hf
    simp [hv q (List.mem_reverse.1 (List.mem_of_find?_eq_some hf)) hqk]

theorem mem_of_lookup_ofPairs {l : List (κ × ν)} {k : κ} {v : ν} (h : (ofPairs l).lookup k = some v) : (k, v) ∈ l := by
  unfold lookup ofPairs at h
  obtain ⟨⟨k', v'⟩, hp, rfl⟩ := Option.map_eq_some_iff.1 h
  rw [Table.get_upsertAll, Table.get_empty, Option.or_none] at hp
  obtain rfl : k' = k := by simpa using List.find?_some hp
  exact List.mem_reverse.1 (List.mem_of_find?_eq_some hp)

theorem lookup_ofPairs_iff {l : List (κ × ν)} (hkeys : (l.map Prod.fst).Nodup) {k : κ} {v : ν} :
    (ofPairs l).lookup k = some v ↔ (k, v) ∈ l := by
  refine ⟨mem_of_lookup_ofPairs, fun h => lookup_ofPairs_eq_some (List.mem_map.2 ⟨_, h, rfl⟩) ?_⟩
  rintro p hp rfl
  exact (Prod.mk.inj (List.inj_on_of_nodup_map hkeys hp h rfl)).2

/-- **The pairs of a list of things**: a key has the value of the last thing under it that has one. -/
theorem lookup_ofPairs_filterMap {α : Type} (key : α → κ) (g : α → Option ν) (l : List α) (k : κ) :
    (ofPairs (l.filterMap fun a => (g a).map (Prod.mk (key a)))).lookup k =
      (l.reverse.find? fun a => decide (key a = k) && (g a).isSome).bind g := by
  unfold lookup ofPairs
  rw [Table.get_upsertAll, Table.get_empty, Option.or_none, ← List.filterMap_reverse]
  induction l.reverse with
  | nil => rfl
  | cons a l ih =>
    cases hg : g a with
    | none => rw [List.filterMap_cons_none (by rw [hg]; rfl), ih, List.find?_cons_of_neg (by simp [hg])]
    | some v =>
      rw [List.filterMap_cons_some (by rw [hg]; rfl)]
      by_cases hk : key a = k
      · rw [List.find?_cons_of_pos (by simpa using hk), List.find?_cons_of_pos (by simp [hg, hk])]
        exact hg.symm
      · rw [List.find?_cons_of_neg (by simpa using hk), List.find?_cons_of_neg (by simp [hk]), ih]

theorem lookup_ofPairs_eq_none {l : List (κ × ν)} {k : κ} (hk : k ∉ l.map Prod.fst) : (ofPairs l).lookup k = none := by
  unfold lookup ofPairs
  rw [Table.get_upsertAll_of_not_mem fun p hp e => hk (List.mem_map.2 ⟨p, hp, e⟩)]
  rfl

theorem lookup_eq_some_iff {d : Dict κ ν} {k : κ} {v : ν} : d.lookup k = some v ↔ (k, v) ∈ d.rows := by
  unfold lookup
  rw [Option.map_eq_some_iff, Table.mem_rows_iff]
  constructor
  · rintro ⟨⟨k', v'⟩, h, rfl⟩
    obtain rfl : k' = k := Table.key_of_get h
    exact h
  · exact fun h => ⟨(k, v), h, rfl⟩

theorem lookup_eq_none_iff {d : Dict κ ν} {k : κ} : d.lookup k = none ↔ k ∉ d.keys := by
  unfold lookup keys
  rw [Table.mem_keys_iff, Option.map_eq_none_iff, Option.not_isSome_iff_eq_none]

theorem mem_keys_of_lookup {d : Dict κ ν} {k : κ} {v : ν} (h : d.lookup k = some v) : k ∈ d.keys := by
  by_contra hn
  rw [lookup_eq_none_iff.2 hn] at h
  cases h

@[simp] theorem lookup_set (d : Dict κ ν) (k j : κ) (v : ν) :
    (d.set k v).lookup j = if j = k then some v else d.lookup j := by
  unfold lookup set
  rw [Table.get_upsert]
  split <;> rfl

theorem lookup_delete (d : Dict κ ν) (k j : κ) :
    lookup (Table.delete d k) j = if j = k then none else d.lookup j := by
  unfold lookup
  rw [Table.get_delete]
  split <;> rfl

/-- `d == d'`: the same keys with the same values, in any order. -/
def eqv [DecidableEq ν] (d d' : Dict κ ν) : Bool :=
  d.keys.all (fun k => d'.lookup k = d.lookup k) && d'.keys.all (fun k => d.lookup k = d'.lookup k)

theorem eqv_iff [DecidableEq ν] {d d' : Dict κ ν} : d.eqv d' = true ↔ ∀ k, d.lookup k = d'.lookup k := by
  simp only [eqv, Bool.and_eq_true, List.all_eq_true, decide_eq_true_eq]
  constructor
  · rintro ⟨h, h'⟩ k
    by_cases hk : k ∈ d.keys
    · exact (h k hk).symm
    by_cases hk' : k ∈ d'.keys
    · exact h' k hk'
    rw [lookup_eq_none_iff.2 hk, lookup_eq_none_iff.2 hk']
  · exact fun h => ⟨fun k _ => (h k).symm, fun k _ => h k⟩

end Dict
end Lib
