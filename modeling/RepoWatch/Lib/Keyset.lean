import Mathlib.Data.List.Sort
import Mathlib.Order.Defs.LinearOrder
/-!
# Lib.Keyset — pages behind a key

A page holds the first rows behind the last key of the page before it, and another page follows when one more row was
there.  The rows may change between two pages.  A key that each page finds in its rows is returned once, and what is
returned is strictly sorted (`Pages.covers`).
-/
namespace Lib
namespace Keyset

variable {ρ κ : Type} [LinearOrder κ] {key : ρ → κ} {after next : Option κ} {limit : Nat} {rows items : List ρ}
  {tables : List (List ρ)} {k : κ}

/-- The rows behind a key, in the order of theirs. -/
def behind (key : ρ → κ) (after : Option κ) (rows : List ρ) : List ρ :=
  (rows.filter fun r => after.all fun k => decide (k < key r)).insertionSort fun r r' => key r ≤ key r'

/-- The first rows, and the key to go on from when there is one row more. -/
def page (key : ρ → κ) (after : Option κ) (limit : Nat) (rows : List ρ) : List ρ × Option κ :=
  let found := (behind key after rows).take (limit + 1)
  let items := found.take limit
  (items, if limit < found.length then items.getLast?.map key else none)

/-- Pages that follow each other, with the rows that each one found. -/
inductive Pages (key : ρ → κ) : List (List ρ) → List ρ → Option κ → Prop
  | first {rows : List ρ} {limit : Nat} : 0 < limit → Pages key [rows] (page key none limit rows).1 (page key none limit rows).2
  | next {tables : List (List ρ)} {items rows : List ρ} {k : κ} {limit : Nat} : Pages key tables items (some k) → 0 < limit →
      Pages key (tables ++ [rows]) (items ++ (page key (some k) limit rows).1) (page key (some k) limit rows).2

theorem mem_behind {r : ρ} : r ∈ behind key after rows ↔ r ∈ rows ∧ ∀ k, after = some k → k < key r := by
  unfold behind
  rw [List.mem_insertionSort, List.mem_filter]
  cases after <;> simp

/-- **Rows behind a key are strictly sorted** when their keys are pairwise different. -/
theorem pairwise_behind (after : Option κ) (h : (rows.map key).Nodup) :
    (behind key after rows).Pairwise fun r r' => key r < key r' := by
  let le : ρ → ρ → Prop := fun r r' => key r ≤ key r'
  have : Std.Total le := ⟨fun r r' => le_total (key r) (key r')⟩
  have : IsTrans ρ le := ⟨fun _ _ _ h h' => le_trans h h'⟩
  have hsorted : (behind key after rows).Pairwise le := List.pairwise_insertionSort le _
  have hnodup : ((behind key after rows).map key).Nodup :=
    ((List.perm_insertionSort _ _).map key).nodup_iff.2 ((List.filter_sublist.map key).nodup h)
  have hne : (behind key after rows).Pairwise fun r r' => key r ≠ key r' := List.pairwise_map.1 hnodup
  exact (hsorted.and hne).imp fun h => lt_of_le_of_ne h.1 h.2

theorem items_page : (page key after limit rows).1 = (behind key after rows).take limit := by
  show ((behind key after rows).take (limit + 1)).take limit = _
  rw [List.take_take, Nat.min_eq_left (Nat.le_succ limit)]

theorem next_page : (page key after limit rows).2 =
    if limit < (behind key after rows).length then ((behind key after rows).take limit).getLast?.map key else none := by
  show (if limit < ((behind key after rows).take (limit + 1)).length then
    (((behind key after rows).take (limit + 1)).take limit).getLast?.map key else none) = _
  rw [List.take_take, Nat.min_eq_left (Nat.le_succ limit), List.length_take]
  simp only [Nat.lt_min, Nat.lt_succ_self, true_and]

theorem pairwise_page (after : Option κ) (limit : Nat) (h : (rows.map key).Nodup) :
    (page key after limit rows).1.Pairwise fun r r' => key r < key r' := by
  rw [items_page]
  exact (pairwise_behind after h).sublist (List.take_sublist limit _)

theorem of_mem_page {r : ρ} (h : r ∈ (page key after limit rows).1) : r ∈ rows ∧ ∀ k, after = some k → k < key r := by
  rw [items_page] at h
  exact mem_behind.1 (List.mem_of_mem_take h)

/-- The last row returned has the key to go on from. -/
theorem exists_of_next_page (h : (page key after limit rows).2 = some k) : ∃ front r,
    (page key after limit rows).1 = front ++ [r] ∧ key r = k := by
  rw [next_page] at h
  rw [items_page]
  split at h
  · obtain ⟨r, hlast, hkey⟩ := Option.map_eq_some_iff.1 h
    obtain ⟨front, hfront⟩ := List.getLast?_eq_some_iff.1 hlast
    exact ⟨front, r, hfront, hkey⟩
  · cases h

theorem le_of_next_page (h : (rows.map key).Nodup) (hnext : (page key after limit rows).2 = some k) :
    ∀ r ∈ (page key after limit rows).1, key r ≤ k := by
  obtain ⟨front, r, hfront, rfl⟩ := exists_of_next_page hnext
  have hsorted := pairwise_page after limit h
  rw [hfront] at hsorted ⊢
  intro r' hr'
  rcases List.mem_append.1 hr' with hr' | hr'
  · exact ((List.pairwise_append.1 hsorted).2.2 r' hr' r List.mem_cons_self).le
  · rw [List.mem_singleton.1 hr']

/-- **A page leaves out no row up to the key to go on from**, and none at all when it is the last. -/
theorem mem_page {r : ρ} (hlimit : 0 < limit) (h : (rows.map key).Nodup) (hr : r ∈ rows)
    (hafter : ∀ k, after = some k → k < key r) (hnext : ∀ k, (page key after limit rows).2 = some k → key r ≤ k) :
    r ∈ (page key after limit rows).1 := by
  have hmem : r ∈ behind key after rows := mem_behind.2 ⟨hr, hafter⟩
  rw [items_page]
  by_cases hmore : limit < (behind key after rows).length
  · have hsorted := pairwise_behind after h
    rw [← List.take_append_drop limit (behind key after rows)] at hmem hsorted
    rcases List.mem_append.1 hmem with hmem | hmem
    · exact hmem
    · -- the last item is before every row that is left
      have hne : (behind key after rows).take limit ≠ [] := by
        rw [← List.length_pos_iff, List.length_take]
        omega
      have hlast := hnext (key (((behind key after rows).take limit).getLast hne)) (by
        rw [next_page, if_pos hmore, List.getLast?_eq_some_getLast hne]
        rfl)
      have := (List.pairwise_append.1 hsorted).2.2 _ (List.getLast_mem hne) r hmem
      exact absurd hlast (not_le.2 this)
  · rwa [List.take_of_length_le (not_lt.1 hmore)]

/-- What pages have returned so far. -/
structure Covers (key : ρ → κ) (tables : List (List ρ)) (items : List ρ) (next : Option κ) : Prop where
  sorted : items.Pairwise fun r r' => key r < key r'
  upTo : ∀ k, next = some k → ∀ r ∈ items, key r ≤ k
  source : ∀ r ∈ items, ∃ rows ∈ tables, r ∈ rows
  found : ∀ k, (∀ rows ∈ tables, ∃ r ∈ rows, key r = k) → (∀ k', next = some k' → k ≤ k') → ∃ r ∈ items, key r = k

theorem covers_page (hlimit : 0 < limit) (h : (rows.map key).Nodup) :
    Covers key [rows] (page key none limit rows).1 (page key none limit rows).2 where
  sorted := pairwise_page none limit h
  upTo _ hk := le_of_next_page h hk
  source r hr := ⟨rows, List.mem_cons_self, (of_mem_page hr).1⟩
  found k hk hnext := by
    obtain ⟨r, hr, rfl⟩ := hk rows List.mem_cons_self
    exact ⟨r, mem_page hlimit h hr (fun _ h => by cases h) hnext, rfl⟩

/-- **One more page.** -/
theorem Covers.page (hc : Covers key tables items (some k)) (hlimit : 0 < limit) (h : (rows.map key).Nodup) :
    Covers key (tables ++ [rows]) (items ++ (page key (some k) limit rows).1) (page key (some k) limit rows).2 := by
  have hbehind : ∀ r ∈ (Keyset.page key (some k) limit rows).1, r ∈ rows ∧ k < key r :=
    fun r hr => ⟨(of_mem_page hr).1, (of_mem_page hr).2 k rfl⟩
  refine ⟨?_, fun k' hk' r hr => ?_, fun r hr => ?_, fun k₀ hk₀ hnext => ?_⟩
  · exact List.pairwise_append.2 ⟨hc.sorted, pairwise_page _ limit h, fun r hr r' hr' =>
      lt_of_le_of_lt (hc.upTo k rfl r hr) (hbehind r' hr').2⟩
  · rcases List.mem_append.1 hr with hr | hr
    · obtain ⟨front, last, hfront, rfl⟩ := exists_of_next_page hk'
      have hlast := hbehind last (hfront ▸ List.mem_append_right _ List.mem_cons_self)
      exact (hc.upTo k rfl r hr).trans hlast.2.le
    · exact le_of_next_page h hk' r hr
  · rcases List.mem_append.1 hr with hr | hr
    · obtain ⟨rows', hrows', hmem⟩ := hc.source r hr
      exact ⟨rows', List.mem_append_left _ hrows', hmem⟩
    · exact ⟨rows, List.mem_append_right _ List.mem_cons_self, (hbehind r hr).1⟩
  · by_cases hk : k₀ ≤ k
    · obtain ⟨r, hr, hkey⟩ := hc.found k₀ (fun rows' hrows' => hk₀ rows' (List.mem_append_left _ hrows'))
        fun k' hk' => Option.some.inj hk' ▸ hk
      exact ⟨r, List.mem_append_left _ hr, hkey⟩
    · obtain ⟨r, hr, rfl⟩ := hk₀ rows (List.mem_append_right _ List.mem_cons_self)
      have hafter : ∀ k', some k = some k' → k' < key r := fun k' hk' => Option.some.inj hk' ▸ not_le.1 hk
      exact ⟨r, List.mem_append_right _ (mem_page hlimit h hr hafter hnext), rfl⟩

/-- **A key that is in the rows of each page is returned once the pages have come past it**, and the items are strictly
sorted. -/
theorem Pages.covers (hp : Pages key tables items next) (h : ∀ rows ∈ tables, (rows.map key).Nodup) :
    Covers key tables items next := by
  induction hp with
  | first hlimit => exact covers_page hlimit (h _ List.mem_cons_self)
  | next _ hlimit ih =>
    exact (ih fun rows hrows => h rows (List.mem_append_left _ hrows)).page hlimit
      (h _ (List.mem_append_right _ List.mem_cons_self))

/-- In strictly sorted items a key stands once. -/
theorem Covers.once (hc : Covers key tables items next) {r : ρ} (hr : r ∈ items) :
    items.filter (fun r' => decide (key r' = key r)) = [r] := by
  have hsorted := hc.sorted
  obtain ⟨pre, post, rfl⟩ := List.append_of_mem hr
  obtain ⟨hpre, hpost, hlt⟩ := List.pairwise_append.1 hsorted
  have hnone : pre.filter (fun r' => decide (key r' = key r)) = [] :=
    List.filter_eq_nil_iff.2 fun r' hr' => by simpa using (hlt r' hr' r List.mem_cons_self).ne
  have hnone' : post.filter (fun r' => decide (key r' = key r)) = [] :=
    List.filter_eq_nil_iff.2 fun r' hr' => by simpa using (List.rel_of_pairwise_cons hpost hr').ne'
  rw [List.filter_append, hnone, List.filter_cons_of_pos (by simp), hnone']
  rfl

end Keyset
end Lib
