import RepoWatch.Lib.Rotation
import RepoWatch.Cleanup
/-!
# CleanupWindows — a bounded cleanup is the whole cleanup in slices

A window keeps the first keys after its cursor of all keys that were drawn (`Window.Kept`), and the second pass decides a
key by the evidence alone (`noteAll_lookup`).  So a plan with a limit is the part of the whole plan in its window
(`makePlan_window`), and passes that go on at the cursor of the pass before come round to every key (`windows_cover`).
-/
namespace RepoWatch

open Lib

/-! ## Windows -/

theorem rankLt_iff {a b : Bool × Str} : rankLt a b = true ↔ toLex a < toLex b := by
  obtain ⟨x, s⟩ := a
  obtain ⟨y, t⟩ := b
  rw [Prod.Lex.toLex_lt_toLex]
  cases x <;> cases y <;> simp [rankLt]

theorem insort_perm (rank : Bool × Str) : ∀ l : List (Bool × Str), (insort rank l).Perm (rank :: l)
  | [] => .refl _
  | x :: xs => by
    unfold insort
    split
    · exact .refl _
    · exact ((insort_perm rank xs).cons x).trans (.swap rank x xs)

theorem insort_sorted {rank : Bool × Str} : ∀ {l : List (Bool × Str)}, l.Pairwise (fun r r' => toLex r < toLex r') →
    rank ∉ l → (insort rank l).Pairwise fun r r' => toLex r < toLex r'
  | [], _, _ => List.pairwise_singleton _ _
  | x :: xs, h, hnot => by
    obtain ⟨hx, hxs⟩ := List.pairwise_cons.1 h
    rw [List.mem_cons, not_or] at hnot
    unfold insort
    split
    · rename_i hlt
      rw [rankLt_iff] at hlt
      refine List.pairwise_cons.2 ⟨fun r hr => ?_, h⟩
      rcases List.mem_cons.1 hr with rfl | hr
      · exact hlt
      · exact hlt.trans (hx r hr)
    · rename_i hlt
      rw [rankLt_iff, not_lt] at hlt
      refine List.pairwise_cons.2 ⟨fun r hr => ?_, insort_sorted hxs hnot.2⟩
      rcases List.mem_cons.1 ((insort_perm rank xs).mem_iff.1 hr) with rfl | hr
      · exact lt_of_le_of_ne hlt fun he => hnot.1 (toLex.injective he).symm
      · exact hx r hr

namespace Window
variable {w : Window} {n : Nat} {after key : Str} {seen : List Str} {row : PlanRow}

/-- The ranks of a window are those of its keys, in order. -/
structure Ordered (n : Nat) (after : Str) (seen : List Str) (w : Window) : Prop where
  limited : w.limit = some (n : Int)
  starts : w.after = after
  sorted : w.ranks.Pairwise fun r r' => toLex r < toLex r'
  ranked : ∀ r ∈ w.ranks, toLex r = rankAfter after r.2
  keys : w.rows.keys.Perm (w.ranks.map Prod.snd)
  sub : ∀ r ∈ w.ranks, r.2 ∈ seen

/-- What a window of `n` keys has kept of the keys it has seen: the first `n` after its cursor. -/
structure Kept (n : Nat) (after : Str) (seen : List Str) (w : Window) : Prop extends Ordered n after seen w where
  bounded : w.ranks.length ≤ n
  least : ∀ k ∈ seen, k ∈ w.rows.keys ∨ w.ranks.length = n ∧ ∀ r ∈ w.ranks, toLex r < rankAfter after k

namespace Ordered

theorem length_rows (h : Ordered n after seen w) : w.rows.rows.length = w.ranks.length := by
  have := h.keys.length_eq
  rwa [List.length_map, Dict.keys, List.length_map] at this

theorem mem_keys (h : Ordered n after seen w) : key ∈ w.rows.keys ↔ rankAfter after key ∈ w.ranks.map toLex := by
  rw [h.keys.mem_iff, List.mem_map, List.mem_map]
  constructor
  · rintro ⟨r, hr, rfl⟩
    exact ⟨r, hr, h.ranked r hr⟩
  · rintro ⟨r, hr, he⟩
    exact ⟨r, hr, rankAfter_inj.1 ((h.ranked r hr).symm.trans he)⟩

theorem not_mem_ranks (h : Ordered n after seen w) (hkey : key ∉ w.rows.keys) : (decide (key ≤ after), key) ∉ w.ranks :=
  fun hr => hkey (h.mem_keys.2 (List.mem_map.2 ⟨_, hr, rfl⟩))

/-- A new key is put in its place. -/
theorem place (h : Ordered n after seen w) (hroom : w.ranks.length < n) (hkey : key ∉ w.rows.keys)
    (hleast : ∀ k ∈ seen, k ∈ w.rows.keys ∨ w.ranks.length + 1 = n ∧ rankAfter after key < rankAfter after k ∧
      ∀ r ∈ w.ranks, toLex r < rankAfter after k) :
    Kept n after (seen ++ [key]) (w.place (decide (key ≤ after), key) row) := by
  have hperm := insort_perm (decide (key ≤ after), key) w.ranks
  have hnew : w.rows.get key = none := by
    have := Dict.lookup_eq_none_iff.2 hkey
    rwa [Dict.lookup, Option.map_eq_none_iff] at this
  have hkeys : (w.rows.set key row).keys = w.rows.keys ++ [key] := Table.keys_upsert hnew
  have hlength : (insort (decide (key ≤ after), key) w.ranks).length = w.ranks.length + 1 := hperm.length_eq
  constructor
  · refine ⟨h.limited, h.starts, insort_sorted h.sorted (h.not_mem_ranks hkey), fun r hr => ?_, ?_, fun r hr => ?_⟩
    · rcases List.mem_cons.1 (hperm.mem_iff.1 hr) with rfl | hr
      · rfl
      · exact h.ranked r hr
    · exact (hkeys ▸ List.perm_append_singleton key w.rows.keys).trans ((h.keys.cons key).trans (hperm.map Prod.snd).symm)
    · rcases List.mem_cons.1 (hperm.mem_iff.1 hr) with rfl | hr
      · simp
      · exact List.mem_append_left _ (h.sub r hr)
  · exact hlength ▸ hroom
  · intro k hk
    rw [show (w.place (decide (key ≤ after), key) row).rows.keys = w.rows.keys ++ [key] from hkeys]
    rcases List.mem_append.1 hk with hk | hk
    · refine (hleast k hk).imp (List.mem_append_left _) ?_
      rintro ⟨hfull, hlt, hall⟩
      refine ⟨hlength.trans hfull, fun r hr => ?_⟩
      rcases List.mem_cons.1 (hperm.mem_iff.1 hr) with rfl | hr
      · exact hlt
      · exact hall r hr
    · exact .inl (List.mem_append_right _ hk)

/-- The last key is dropped. -/
theorem pop (h : Ordered n after seen w) {front : List (Bool × Str)} {last : Bool × Str} (hranks : w.ranks = front ++ [last]) :
    Ordered n after seen { w with ranks := w.ranks.dropLast, rows := w.rows.delete last.2 } := by
  have hdrop : w.ranks.dropLast = front := by rw [hranks, List.dropLast_concat]
  have hmem : ∀ r ∈ front, r ∈ w.ranks := fun r hr => hranks ▸ List.mem_append_left _ hr
  have hsorted := h.sorted
  rw [hranks, List.pairwise_append] at hsorted
  rw [hdrop]
  refine ⟨h.limited, h.starts, hsorted.1, fun r hr => h.ranked r (hmem r hr), ?_, fun r hr => h.sub r (hmem r hr)⟩
  have hperm := h.keys
  rw [hranks, List.map_append, List.map_singleton] at hperm
  have hnodup : (front.map Prod.snd ++ [last.2]).Nodup := hperm.nodup_iff.1 w.rows.keysNodup
  have hfilter := hperm.filter (fun k => decide (k ≠ last.2))
  have hfront : (front.map Prod.snd ++ [last.2]).filter (fun k => decide (k ≠ last.2)) = front.map Prod.snd := by
    rw [List.filter_append, List.filter_eq_self.2 fun k hk => ?_]
    · simp
    · rw [List.nodup_append] at hnodup
      exact decide_eq_true (hnodup.2.2 k hk last.2 (List.mem_singleton_self _))
  rw [hfront] at hfilter
  have hkeys : Dict.keys (w.rows.delete last.2) = w.rows.keys.filter fun k => decide (k ≠ last.2) := by
    show (w.rows.rows.filter fun p => decide (p.1 ≠ last.2)).map Prod.fst = _
    rw [Dict.keys, List.filter_map]
    rfl
  exact hkeys ▸ hfilter

end Ordered

namespace Kept

/-- A key that is there, or behind all that are kept, changes nothing. -/
theorem skip (h : Kept n after seen w)
    (hkey : key ∈ w.rows.keys ∨ w.ranks.length = n ∧ ∀ r ∈ w.ranks, toLex r < rankAfter after key) :
    Kept n after (seen ++ [key]) w := by
  refine ⟨⟨h.limited, h.starts, h.sorted, h.ranked, h.keys, fun r hr => List.mem_append_left _ (h.sub r hr)⟩, h.bounded,
    fun k hk => ?_⟩
  rcases List.mem_append.1 hk with hk | hk
  · exact h.least k hk
  · exact List.mem_singleton.1 hk ▸ hkey

theorem add (h : Kept n after seen w) (hn : 0 < n) (key : Str) (row : PlanRow) :
    Kept n after (seen ++ [key]) (w.add key row) := by
  have hlimit : w.limit ≠ some 0 := by rw [h.limited]; simp; omega
  unfold Window.add
  split
  · rename_i hkey
    exact h.skip (.inl (hkey.resolve_left hlimit))
  rename_i hkey
  have hkey : key ∉ w.rows.keys := fun hk => hkey (.inr hk)
  rw [h.limited, h.starts]
  dsimp only
  split
  · rename_i hfull
    have hfull : w.ranks.length = n := le_antisymm h.bounded (by rw [← h.length_rows]; omega)
    cases hlast : w.ranks.getLast? with
    | none =>
      rw [List.getLast?_eq_none_iff] at hlast
      rw [hlast] at hfull
      exact absurd hfull (by simp; omega)
    | some last =>
      obtain ⟨front, hfront⟩ := List.getLast?_eq_some_iff.1 hlast
      have hbelow : ∀ r ∈ front, toLex r < toLex last := by
        have := h.sorted
        rw [hfront, List.pairwise_append] at this
        exact fun r hr => this.2.2 r hr last (by simp)
      have hlastMem : last ∈ w.ranks := hfront ▸ by simp
      have hlastRank := h.ranked last hlastMem
      dsimp only
      split
      · -- the key is behind all that are kept
        rename_i hge
        rw [Bool.not_eq_true', ← Bool.not_eq_true, rankLt_iff, not_lt] at hge
        refine h.skip (.inr ⟨hfull, fun r hr => lt_of_le_of_ne ?_ fun he => ?_⟩)
        · rw [hfront] at hr
          rcases List.mem_append.1 hr with hr | hr
          · exact (hbelow r hr).le.trans hge
          · exact List.mem_singleton.1 hr ▸ hge
        · exact h.not_mem_ranks hkey (toLex.injective he ▸ hr)
      · rename_i hlt
        rw [Bool.not_eq_true', Bool.not_eq_false, rankLt_iff] at hlt
        have hdrop : w.ranks.dropLast = front := by rw [hfront, List.dropLast_concat]
        have hlength : front.length + 1 = n := by rw [← hfull, hfront, List.length_append, List.length_singleton]
        have hdelete : ∀ k, k ∈ Dict.keys (w.rows.delete last.2) ↔ k ∈ w.rows.keys ∧ k ≠ last.2 := fun k => by
          rw [Dict.keys, Table.mem_keys_iff, Table.get_delete, Dict.keys, Table.mem_keys_iff]
          by_cases hk : k = last.2 <;> simp [hk]
        have hplaced : Kept n after (seen ++ [key]) ({ w with
            ranks := w.ranks.dropLast
            rows := w.rows.delete last.2 }.place (decide (key ≤ after), key) row) := by
          refine (h.toOrdered.pop hfront).place ?_ (fun hk => hkey ((hdelete key).1 hk).1) fun k hk => ?_
          · simp only [hdrop]
            omega
          rw [hdelete]
          simp only [hdrop]
          by_cases hk' : k ∈ w.rows.keys
          · by_cases hlastKey : k = last.2
            · subst hlastKey
              exact .inr ⟨hlength, hlastRank ▸ hlt, fun r hr => hlastRank ▸ hbelow r hr⟩
            · exact .inl ⟨hk', hlastKey⟩
          · have hbehind := ((h.least k hk).resolve_left hk').2
            exact .inr ⟨hlength, hlt.trans (hbehind last hlastMem),
              fun r hr => hbehind r (hfront ▸ List.mem_append_left _ hr)⟩
        rwa [h.limited, h.starts] at hplaced
  · rename_i hroom
    rw [h.length_rows] at hroom
    refine h.place (by omega) hkey fun k hk => (h.least k hk).imp_right ?_
    rintro ⟨hfull, -⟩
    omega

end Kept
end Window

/-! ## Verdicts -/

/-- The owner of a file no longer is served from this one of its keys, and the key may be cleaned. -/
def CleanupEvidence.leaves (e : CleanupEvidence) (k : Str) : Bool :=
  e.eligible && !e.blocked && e.keys.contains k && k != e.target

/-- The row of a key, shown for the first owner that left it. -/
def shownFor (seen : List CleanupEvidence) (k : Str) (row : PlanRow) : PlanRow :=
  match seen.find? fun e => e.leaves k with
  | none => row
  | some e => { row with repoId := e.repoId, filename := e.filename }

/-- The findings are what the owners seen so far say of the keys that were drawn, and nothing else. -/
structure Findings.Exact (possible : Dict Str PlanRow) (seen : List CleanupEvidence) (f : Findings) : Prop where
  rows : ∀ k, f.possible.lookup k = (possible.lookup k).map (shownFor seen k)
  attributed : ∀ k, k ∈ f.attributed ↔ k ∈ possible.keys ∧ ∃ e ∈ seen, e.leaves k = true
  active : ∀ k, k ∈ f.active ↔ k ∈ possible.keys ∧ ∃ e ∈ seen, e.target = k
  blocked : ∀ k, k ∈ f.unsafeKeys ↔ k ∈ watchedKeys possible ∧ ∃ e ∈ seen, e.blocked = true ∧ k ∈ e.target :: e.keys
  conflicts : ∀ k, k ∈ f.conflicts ↔
    ∃ row, possible.lookup k = some row ∧ ∃ e ∈ seen, e.leaves k = true ∧ row.canonicalKey ≠ e.target

section Exact
variable {possible : Dict Str PlanRow} {seen : List CleanupEvidence} {f : Findings} {e : CleanupEvidence}

theorem shownFor_canonicalKey (seen : List CleanupEvidence) (k : Str) (row : PlanRow) :
    (shownFor seen k row).canonicalKey = row.canonicalKey := by
  unfold shownFor
  split <;> rfl

theorem shownFor_append (seen : List CleanupEvidence) (e : CleanupEvidence) (k : Str) (row : PlanRow) :
    shownFor (seen ++ [e]) k row = if (∀ e' ∈ seen, e'.leaves k = false) ∧ e.leaves k = true
      then { row with repoId := e.repoId, filename := e.filename } else shownFor seen k row := by
  unfold shownFor
  rw [List.find?_append]
  cases h : seen.find? fun e => e.leaves k with
  | some e' =>
    have hleaves := List.find?_some h
    rw [if_neg fun hall => by simp [hall.1 e' (List.mem_of_find?_eq_some h)] at hleaves]
    rfl
  | none =>
    have hnone : ∀ e' ∈ seen, e'.leaves k = false := by simpa using h
    cases he : e.leaves k with
    | true => rw [if_pos ⟨hnone, rfl⟩, Option.none_or, List.find?_singleton, if_pos he]
    | false => simp [he]

/-- A round that strikes nothing out of an owner that leaves no key. -/
theorem Findings.Exact.congr {e' : CleanupEvidence} (h : f.Exact possible (seen ++ [e]))
    (hleaves : ∀ k ∈ possible.keys, e'.leaves k = e.leaves k) (htarget : e'.target = e.target)
    (hblocked : e'.blocked = e.blocked) (hkeys : e.blocked = true → e'.keys = e.keys) (hrepo : e'.repoId = e.repoId)
    (hfile : e'.filename = e.filename) : f.Exact possible (seen ++ [e']) := by
  constructor
  · intro k
    rw [h.rows]
    cases hl : possible.lookup k with
    | none => rfl
    | some row =>
      rw [Option.map_some, Option.map_some, shownFor_append, shownFor_append, hleaves k (Dict.mem_keys_of_lookup hl), hrepo,
        hfile]
  · intro k
    rw [h.attributed]
    refine and_congr_right fun hk => ?_
    simp [hleaves k hk]
  · intro k
    rw [h.active]
    simp [htarget]
  · intro k
    rw [h.blocked]
    refine and_congr_right fun hk => ?_
    simp only [List.mem_append, List.mem_singleton, or_and_right, exists_or, exists_eq_left]
    refine or_congr_right ?_
    rw [hblocked, htarget]
    refine and_congr_right fun hb => ?_
    rw [hkeys hb]
  · intro k
    rw [h.conflicts]
    refine exists_congr fun row => and_congr_right fun hrow => ?_
    simp [hleaves k (Dict.mem_keys_of_lookup hrow), htarget]

theorem Findings.Exact.mem_keys (h : f.Exact possible seen) {k : Str} : k ∈ f.possible.keys ↔ k ∈ possible.keys := by
  have := h.rows k
  rw [← not_iff_not, ← Dict.lookup_eq_none_iff, ← Dict.lookup_eq_none_iff, this, Option.map_eq_none_iff]

/-- What an owner is served from, and what it needs when it blocks. -/
theorem Findings.Exact.noteBlocked (h : f.Exact possible seen) (e : CleanupEvidence) :
    ((f.noteActive e).noteBlocked (watchedKeys possible) e).Exact possible
      (seen ++ [{ e with keys := if e.blocked then e.keys else [] }]) := by
  have hnone : ∀ k, CleanupEvidence.leaves { e with keys := if e.blocked then e.keys else [] } k = false := fun k => by
    unfold CleanupEvidence.leaves
    cases hb : e.blocked <;> simp
  obtain ⟨hpos, hactive, hrisky, hconf⟩ := noteActive_spec f e
  obtain ⟨hpos', hactive', -, hconf', -⟩ := noteBlocked_spec (watchedKeys possible) (f.noteActive e) e
  have hattributed : ((f.noteActive e).noteBlocked (watchedKeys possible) e).attributed = f.attributed := by
    unfold Findings.noteBlocked Findings.noteActive
    split <;> split <;> rfl
  constructor
  · intro k
    rw [hpos', hpos, h.rows]
    congr 1
    funext row
    rw [shownFor_append, if_neg fun hl => by simp [hnone k] at hl]
  · intro k
    rw [hattributed, h.attributed]
    simp [hnone k]
  · intro k
    rw [hactive', hactive, h.active, h.mem_keys]
    simp only [List.mem_append, List.mem_singleton, or_and_right, exists_or, exists_eq_left, and_or_left]
    refine or_congr_right ?_
    constructor
    · rintro ⟨rfl, hk⟩
      exact ⟨hk, rfl⟩
    · rintro ⟨hk, rfl⟩
      exact ⟨rfl, hk⟩
  · intro k
    have hheld : k ∈ ((f.noteActive e).noteBlocked (watchedKeys possible) e).unsafeKeys ↔
        k ∈ f.unsafeKeys ∨ e.blocked = true ∧ k ∈ e.target :: e.keys ∧ k ∈ watchedKeys possible := by
      unfold Findings.noteBlocked
      split
      · rename_i hb
        rw [List.mem_append, List.mem_filter, hrisky, or_comm]
        simp [hb]
      · rename_i hb
        rw [hrisky]
        simp [hb]
    rw [hheld, h.blocked]
    simp only [List.mem_append, List.mem_singleton, or_and_right, exists_or, exists_eq_left, and_or_left]
    refine or_congr_right ?_
    constructor
    · rintro ⟨hb, hk, hw⟩
      exact ⟨hw, hb, by rwa [if_pos hb]⟩
    · rintro ⟨hw, hb, hk⟩
      exact ⟨hb, by rwa [if_pos hb] at hk, hw⟩
  · intro k
    rw [hconf', hconf, h.conflicts]
    simp [hnone k]

/-- An owner leaves one more key. -/
theorem CleanupEvidence.leaves_append (pre : List Str) (k : Str) (heligible : e.eligible = true)
    (hblocked : e.blocked = false) (j : Str) : leaves { e with keys := pre ++ [k] } j =
      (leaves { e with keys := pre } j || (decide (j = k) && j != e.target)) := by
  unfold leaves
  by_cases hj : j = k
  · subst hj
    simp [heligible, hblocked]
  · simp [heligible, hblocked, hj]

theorem Findings.attributeTo_lookup (f : Findings) (e : CleanupEvidence) (k j : Str) :
    (f.attributeTo e k).possible.lookup j = if j = k ∧ k ∉ f.attributed
      then (f.possible.lookup k).map fun row => { row with repoId := e.repoId, filename := e.filename }
      else f.possible.lookup j := by
  unfold attributeTo
  split
  · rename_i hk
    rw [if_neg fun h => h.2 hk]
  rename_i hk
  split
  · rename_i hnone
    by_cases hj : j = k
    · rw [if_pos ⟨hj, hk⟩, hj, hnone]
      rfl
    · rw [if_neg fun h => hj h.1]
  · rename_i row hrow
    rw [Dict.lookup_set]
    by_cases hj : j = k
    · rw [if_pos hj, if_pos ⟨hj, hk⟩, hrow]
      rfl
    · rw [if_neg hj, if_neg fun h => hj h.1]

theorem Findings.attributeTo_attributed {k : Str} (hk : k ∈ f.possible.keys) (e : CleanupEvidence) (j : Str) :
    j ∈ (f.attributeTo e k).attributed ↔ j = k ∨ j ∈ f.attributed := by
  unfold attributeTo
  split
  · rename_i hmem
    exact ⟨.inr, fun h => h.elim (fun h => h ▸ hmem) id⟩
  split
  · rename_i hnone
    exact absurd hk (Dict.lookup_eq_none_iff.1 hnone)
  · exact List.mem_cons

/-- One more key of an owner that may be cleaned. -/
theorem Findings.Exact.own {pre : List Str} {k : Str} (h : f.Exact possible (seen ++ [{ e with keys := pre }]))
    (heligible : e.eligible = true) (hblocked : e.blocked = false) (hk : k ∈ possible.keys) :
    (f.own e k).Exact possible (seen ++ [{ e with keys := pre ++ [k] }]) := by
  have hleaves := CleanupEvidence.leaves_append pre k heligible hblocked
  unfold Findings.own
  split
  · -- the owner is served from this key
    rename_i htarget
    refine h.congr (fun j _ => ?_) rfl rfl (fun hb => absurd hb (by simp [hblocked])) rfl rfl
    rw [hleaves]
    by_cases hj : j = k
    · simp [hj, htarget]
    · simp [hj]
  rename_i htarget
  have hleft : ∀ j, CleanupEvidence.leaves { e with keys := pre ++ [k] } j = true ↔
      CleanupEvidence.leaves { e with keys := pre } j = true ∨ j = k := fun j => by
    rw [hleaves]
    by_cases hj : j = k
    · simp [hj, htarget]
    · simp [hj]
  obtain ⟨-, hrisky, hactive, hconf⟩ := attributeTo_spec e f k
  have hexact : ∀ g : Findings, g.possible = (f.attributeTo e k).possible → g.attributed = (f.attributeTo e k).attributed →
      g.active = f.active → g.unsafeKeys = f.unsafeKeys → (∀ j, j ∈ g.conflicts ↔ j ∈ f.conflicts ∨
        j = k ∧ ∃ row, possible.lookup k = some row ∧ row.canonicalKey ≠ e.target) →
      g.Exact possible (seen ++ [{ e with keys := pre ++ [k] }]) := by
    intro g hg hattributed hg' hg'' hconflicts
    constructor
    · intro j
      rw [hg, attributeTo_lookup]
      split
      · rename_i hj
        obtain ⟨rfl, hnot⟩ := hj
        rw [h.attributed, not_and] at hnot
        have hnone := fun e' he' => Bool.eq_false_iff.2 fun hl => hnot hk ⟨e', he', hl⟩
        rw [h.rows, Option.map_map]
        congr 1
        funext row
        rw [shownFor_append, if_pos ⟨fun e' he' => hnone e' (List.mem_append_left _ he'), (hleft j).2 (.inr rfl)⟩]
        unfold shownFor
        rw [Function.comp_apply, List.find?_eq_none.2 fun e' he' => by simp [hnone e' he']]
      · rename_i hj
        rw [h.rows]
        congr 1
        funext row
        rw [shownFor_append, shownFor_append]
        by_cases hjk : j = k
        · subst hjk
          rw [not_and, not_not, h.attributed] at hj
          obtain ⟨-, e', he', hl⟩ := hj rfl
          rcases List.mem_append.1 he' with he' | he'
          · rw [if_neg fun hn => by simp [hn.1 e' he'] at hl, if_neg fun hn => by simp [hn.1 e' he'] at hl]
          · rw [List.mem_singleton.1 he'] at hl
            simp only [hl, (hleft j).2 (.inr rfl)]
        · simp only [hleft, hjk, or_false]
    · intro j
      rw [hattributed, attributeTo_attributed (h.mem_keys.2 hk), h.attributed]
      simp only [List.mem_append, List.mem_singleton, or_and_right, exists_or, exists_eq_left, hleft]
      constructor
      · rintro (rfl | ⟨hj, hl⟩)
        · exact ⟨hk, .inr (.inr rfl)⟩
        · exact ⟨hj, hl.imp_right .inl⟩
      · rintro ⟨hj, hl | hl | rfl⟩
        · exact .inr ⟨hj, .inl hl⟩
        · exact .inr ⟨hj, .inr hl⟩
        · exact .inl rfl
    · intro j
      rw [hg', h.active]
      simp
    · intro j
      rw [hg'', h.blocked]
      simp [hblocked]
    · intro j
      rw [hconflicts, h.conflicts]
      simp only [List.mem_append, List.mem_singleton, or_and_right, exists_or, exists_eq_left, hleft, and_or_left]
      constructor
      · rintro ((hl | hl) | ⟨rfl, row, hrow, hne⟩)
        · exact .inl hl
        · exact .inr (.inl hl)
        · exact .inr (.inr ⟨row, hrow, rfl, hne⟩)
      · rintro (hl | hl | ⟨row, hrow, rfl, hne⟩)
        · exact .inl (.inl hl)
        · exact .inl (.inr hl)
        · exact .inr ⟨rfl, row, hrow, hne⟩
  have hconflict : ((f.attributeTo e k).possible.lookup k).any (·.canonicalKey ≠ e.target) = true ↔
      ∃ row, possible.lookup k = some row ∧ row.canonicalKey ≠ e.target := by
    rw [attributeTo_lookup, h.rows]
    cases possible.lookup k with
    | none => simp
    | some row => split <;> simp [shownFor_canonicalKey]
  dsimp only
  split
  · rename_i hc
    refine hexact _ rfl rfl hactive hrisky fun j => ?_
    rw [List.mem_cons, hconf, or_comm]
    exact or_congr_right (and_iff_left (hconflict.1 hc)).symm
  · rename_i hc
    refine hexact _ rfl rfl hactive hrisky fun j => ?_
    rw [hconf]
    exact (or_iff_left fun hj => hc (hconflict.2 hj.2)).symm

/-- **One round of the second pass.** -/
theorem Findings.Exact.note (h : f.Exact possible seen) (e : CleanupEvidence) :
    (f.note (watchedKeys possible) e).Exact possible (seen ++ [e]) := by
  have hblocked := h.noteBlocked e
  unfold Findings.note
  dsimp only
  split
  · rename_i he
    rw [Bool.and_eq_true, Bool.not_eq_true'] at he
    rw [if_neg (by simp [he.2])] at hblocked
    generalize (f.noteActive e).noteBlocked (watchedKeys possible) e = g at hblocked ⊢
    have hkeys : ∀ (keys pre : List Str) (g : Findings), (∀ k ∈ keys, k ∈ possible.keys) →
        g.Exact possible (seen ++ [{ e with keys := pre }]) →
        (keys.foldl (Findings.own e) g).Exact possible (seen ++ [{ e with keys := pre ++ keys }]) := by
      intro keys
      induction keys with
      | nil => exact fun pre g _ hg => by rwa [List.append_nil]
      | cons k keys ih =>
        intro pre g hall hg
        have := ih (pre ++ [k]) (g.own e k) (fun j hj => hall j (List.mem_cons_of_mem _ hj))
          (hg.own he.1 he.2 (hall k List.mem_cons_self))
        rwa [List.append_assoc] at this
    refine (hkeys (e.keys.filter (· ∈ g.possible.keys)) [] g (fun k hk => ?_) hblocked).congr (fun k hk => ?_) rfl rfl
      (fun hb => absurd (hb.symm.trans he.2) Bool.noConfusion) rfl rfl
    · exact hblocked.mem_keys.1 (of_decide_eq_true (List.mem_filter.1 hk).2)
    · unfold CleanupEvidence.leaves
      simp [hblocked.mem_keys.2 hk]
  · rename_i he
    refine hblocked.congr (fun k _ => ?_) rfl rfl (fun hb => (if_pos hb).symm) rfl rfl
    unfold CleanupEvidence.leaves
    dsimp only
    split
    · rfl
    · rename_i hb
      have : e.eligible = false := by
        cases hel : e.eligible with
        | false => rfl
        | true => exact absurd (by simp [hel, Bool.eq_false_iff.2 hb]) he
      simp [this]

theorem noteAll_exact (possible : Dict Str PlanRow) (evidence : List CleanupEvidence) :
    (noteAll possible evidence).Exact possible evidence := by
  refine foldl_inv (fun seen f => Findings.Exact possible seen f) ?_ (fun _ e _ h => h.note e) evidence
  constructor
  · intro k
    exact (Option.map_id' ..).symm
  all_goals simp

theorem Findings.candidates_lookup (f : Findings) (k : Str) :
    f.candidates.lookup k = (f.possible.lookup k).filter (f.keeps k) := by
  refine Option.ext fun row => ?_
  rw [Option.filter_eq_some_iff]
  refine ⟨lookup_candidates, ?_⟩
  rintro ⟨hrow, hkeep⟩
  refine Dict.lookup_ofPairs_eq_some (List.mem_map.2 ⟨(k, row), List.mem_filterMap.2 ⟨k, ?_, ?_⟩, rfl⟩) ?_
  · exact mem_sortedStr.2 (Dict.mem_keys_of_lookup hrow)
  · rw [hrow]
    exact if_pos hkeep
  · rintro ⟨j, row'⟩ hp rfl
    obtain ⟨j', -, hj⟩ := List.mem_filterMap.1 hp
    obtain ⟨row'', hrow'', hj⟩ := Option.bind_eq_some_iff.1 hj
    split at hj
    · cases hj
      exact Option.some.inj (hrow''.symm.trans hrow)
    · cases hj

theorem Findings.keeps_iff {k : Str} {row : PlanRow} : f.keeps k row = true ↔
    k ∉ f.active ∧ k ∉ f.unsafeKeys ∧ row.canonicalKey ∉ f.unsafeKeys ∧ k ∉ f.conflicts := by
  simp [Findings.keeps]
  tauto

/-- No owner needs the key, and all that left it are served from the canonical key, which none blocks. -/
def Removable (evidence : List CleanupEvidence) (k canonical : Str) : Prop :=
  (∀ e ∈ evidence, e.target ≠ k) ∧
    (∀ e ∈ evidence, e.blocked = true → k ∉ e.target :: e.keys ∧ canonical ∉ e.target :: e.keys) ∧
    ∀ e ∈ evidence, e.leaves k = true → e.target = canonical

/-- **The verdict on a key** is a matter of the evidence and of its canonical key. -/
theorem noteAll_lookup {evidence : List CleanupEvidence} {k : Str} {row : PlanRow} :
    (noteAll possible evidence).candidates.lookup k = some row ↔
      ∃ drawn, possible.lookup k = some drawn ∧ row = shownFor evidence k drawn ∧
        Removable evidence k drawn.canonicalKey := by
  have h := noteAll_exact possible evidence
  rw [Findings.candidates_lookup, Option.filter_eq_some_iff, h.rows, Option.map_eq_some_iff]
  have hkeeps : ∀ drawn, possible.lookup k = some drawn →
      ((noteAll possible evidence).keeps k (shownFor evidence k drawn) = true ↔
        Removable evidence k drawn.canonicalKey) := by
    intro drawn hdrawn
    have hk := Dict.mem_keys_of_lookup hdrawn
    have hwatched : k ∈ watchedKeys possible := List.mem_append_left _ hk
    have hcanonical : drawn.canonicalKey ∈ watchedKeys possible :=
      List.mem_append_right _ (List.mem_map.2 ⟨_, Dict.lookup_eq_some_iff.1 hdrawn, rfl⟩)
    rw [Findings.keeps_iff, h.active, h.blocked, h.blocked, h.conflicts, shownFor_canonicalKey]
    constructor
    · rintro ⟨hactive, hk', hc', hconflict⟩
      refine ⟨fun e he ht => hactive ⟨hk, e, he, ht⟩, fun e he hb => ⟨fun hm => hk' ⟨hwatched, e, he, hb, hm⟩,
        fun hm => hc' ⟨hcanonical, e, he, hb, hm⟩⟩, fun e he hl => ?_⟩
      by_contra hne
      exact hconflict ⟨drawn, hdrawn, e, he, hl, Ne.symm hne⟩
    · rintro ⟨hserved, hblocked, hone⟩
      refine ⟨fun ⟨_, e, he, ht⟩ => hserved e he ht, fun ⟨_, e, he, hb, hm⟩ => (hblocked e he hb).1 hm,
        fun ⟨_, e, he, hb, hm⟩ => (hblocked e he hb).2 hm, fun ⟨row, hrow, e, he, hl, hne⟩ => ?_⟩
      rw [hdrawn] at hrow
      cases hrow
      exact hne (hone e he hl).symm
  constructor
  · rintro ⟨⟨drawn, hdrawn, rfl⟩, hkeep⟩
    exact ⟨drawn, hdrawn, rfl, (hkeeps drawn hdrawn).1 hkeep⟩
  · rintro ⟨drawn, hdrawn, rfl, hremovable⟩
    exact ⟨⟨drawn, hdrawn, rfl⟩, (hkeeps drawn hdrawn).2 hremovable⟩

end Exact

/-! ## Draws -/

/-- The rows that the first pass draws for an owner. -/
def drawnRows (args : CleanupArgs) (e : CleanupEvidence) : List PlanRow :=
  if e.blocked || !e.eligible then []
  else ((e.keys.filter (· ≠ e.target)).filter args.admits).map fun key => ⟨key, e.repoId, e.filename, e.target⟩

def Window.addRows (w : Window) (rows : List PlanRow) : Window := rows.foldl (fun w row => w.add row.key row) w

section Draws
variable {args : CleanupArgs} {evidence : List CleanupEvidence} {row : PlanRow}

theorem mem_drawnRows {e : CleanupEvidence} : row ∈ drawnRows args e ↔ e.leaves row.key = true ∧ args.admits row.key = true ∧
    row = ⟨row.key, e.repoId, e.filename, e.target⟩ := by
  unfold drawnRows CleanupEvidence.leaves
  split
  · rename_i h
    rw [Bool.or_eq_true, Bool.not_eq_true'] at h
    rcases h with h | h <;> simp [h]
  · rename_i h
    rw [Bool.or_eq_true, not_or, Bool.not_eq_true', Bool.not_eq_false, Bool.not_eq_true] at h
    simp only [List.mem_map, List.mem_filter, decide_eq_true_eq, h.1, h.2, Bool.not_false, Bool.and_true, Bool.true_and,
      Bool.and_eq_true, List.contains_iff_mem, bne_iff_ne]
    constructor
    · rintro ⟨key, ⟨hk, hadmits⟩, rfl⟩
      exact ⟨hk, hadmits, rfl⟩
    · rintro ⟨hk, hadmits, hrow⟩
      exact ⟨row.key, ⟨hk, hadmits⟩, hrow.symm⟩

theorem Drawn.draw_eq (args : CleanupArgs) (d : Drawn) (e : CleanupEvidence) :
    (d.draw args e).fair = d.fair.addRows (drawnRows args e) ∧
      (d.draw args e).priority = if e.warmed then d.priority.addRows (drawnRows args e) else d.priority := by
  have hkeys : ∀ (keys : List Str) (d : Drawn), (keys.foldl (drawKey args e) d).fair =
        d.fair.addRows ((keys.filter args.admits).map fun key => ⟨key, e.repoId, e.filename, e.target⟩) ∧
      (keys.foldl (drawKey args e) d).priority = if e.warmed then
        d.priority.addRows ((keys.filter args.admits).map fun key => ⟨key, e.repoId, e.filename, e.target⟩)
        else d.priority := by
    intro keys
    induction keys with
    | nil => exact fun d => ⟨rfl, by simp [Window.addRows]⟩
    | cons key keys ih =>
      intro d
      obtain ⟨hfair, hpriority⟩ := ih (d.drawKey args e key)
      rw [List.foldl_cons, hfair, hpriority]
      unfold drawKey
      cases hadmits : args.admits key with
      | false => simp [hadmits]
      | true => cases hw : e.warmed <;> simp [hadmits, Window.addRows]
  unfold draw drawnRows
  dsimp only
  split
  · simp [Window.addRows]
  · exact hkeys _ _

theorem drawAll_eq (args : CleanupArgs) (evidence : List CleanupEvidence) :
    (drawAll args evidence).fair = Window.addRows ⟨args.limit, args.after, [], .empty⟩ (evidence.flatMap (drawnRows args)) ∧
      (drawAll args evidence).priority = Window.addRows
        ⟨some (match args.limit with | none => 0 | some n => n - max 1 (n / 2)), args.priorityAfter, [], .empty⟩
        ((evidence.filter CleanupEvidence.warmed).flatMap (drawnRows args)) := by
  refine foldl_inv (fun seen (d : Drawn) =>
    d.fair = Window.addRows ⟨args.limit, args.after, [], .empty⟩ (seen.flatMap (drawnRows args)) ∧
      d.priority = Window.addRows
        ⟨some (match args.limit with | none => 0 | some n => n - max 1 (n / 2)), args.priorityAfter, [], .empty⟩
        ((seen.filter CleanupEvidence.warmed).flatMap (drawnRows args))) ⟨rfl, rfl⟩ ?_ evidence
  rintro seen e d ⟨hfair, hpriority⟩
  obtain ⟨hfair', hpriority'⟩ := Drawn.draw_eq args d e
  rw [hfair', hpriority', hfair, hpriority]
  constructor
  · simp [Window.addRows]
  · cases hw : e.warmed <;> simp [hw, Window.addRows]

/-- Whatever a window holds was added to it. -/
theorem Window.lookup_addRows : ∀ (rows : List PlanRow) {w : Window} {k : Str}, (w.addRows rows).rows.lookup k = some row →
    (row ∈ rows ∧ row.key = k) ∨ w.rows.lookup k = some row
  | [], _, _, h => .inr h
  | r :: rows, w, k, h => by
    rcases lookup_addRows rows (w := w.add r.key r) h with ⟨hmem, hkey⟩ | h
    · exact .inl ⟨List.mem_cons_of_mem _ hmem, hkey⟩
    have hset : ∀ {d : Dict Str PlanRow}, (∀ j row', d.lookup j = some row' → w.rows.lookup j = some row') →
        (d.set r.key r).lookup k = some row → (row ∈ r :: rows ∧ row.key = k) ∨ w.rows.lookup k = some row := by
      intro d hd hl
      rw [Dict.lookup_set] at hl
      split at hl
      · rename_i hkey
        cases hl
        exact .inl ⟨List.mem_cons_self, hkey.symm⟩
      · exact .inr (hd k row hl)
    unfold add at h
    split at h
    · exact .inr h
    split at h
    · exact hset (fun _ _ => id) h
    dsimp only at h
    split at h
    · split at h
      · exact hset (fun _ _ => id) h
      · split at h
        · exact .inr h
        · refine hset (fun j row' hj => ?_) h
          unfold Dict.lookup at hj ⊢
          rw [Table.get_delete] at hj
          split at hj
          · cases hj
          · exact hj
    · exact hset (fun _ _ => id) h

theorem Window.mem_keys_addRows : ∀ (rows : List PlanRow) {w : Window} (k : Str), w.limit = none →
    (k ∈ (w.addRows rows).rows.keys ↔ k ∈ w.rows.keys ∨ ∃ row ∈ rows, row.key = k)
  | [], w, k, _ => by simp [addRows]
  | r :: rows, w, k, hlimit => by
    have hadd : (w.add r.key r).limit = none ∧ (k ∈ (w.add r.key r).rows.keys ↔ k ∈ w.rows.keys ∨ r.key = k) := by
      unfold add
      rw [hlimit]
      split
      · rename_i h
        have hmem := h.resolve_left (by simp)
        exact ⟨hlimit, (or_iff_left_of_imp fun hk => hk ▸ hmem).symm⟩
      · refine ⟨rfl, ?_⟩
        rw [← not_iff_not, not_or, ← Dict.lookup_eq_none_iff, ← Dict.lookup_eq_none_iff, Dict.lookup_set]
        by_cases hk : k = r.key
        · simp [hk]
        · simp [hk, Ne.symm hk]
    have ih := mem_keys_addRows rows (w := w.add r.key r) k hadd.1
    unfold addRows at ih ⊢
    rw [List.foldl_cons, ih, hadd.2]
    simp [or_assoc]

/-- `possible.setdefault(key, fair.rows[key])`. -/
def setDefault (fair possible : Dict Str PlanRow) (key : Str) : Dict Str PlanRow :=
  match possible.lookup key, fair.lookup key with
  | none, some row => possible.set key row
  | _, _ => possible

theorem setDefault_spec {fair : Dict Str PlanRow} (possible : Dict Str PlanRow) {key : Str} (hkey : key ∈ fair.keys) :
    (∀ k, k ∈ (setDefault fair possible key).keys ↔ k ∈ possible.keys ∨ k = key) ∧
      (setDefault fair possible key).rows.length ≤ possible.rows.length + 1 ∧
      ∀ k row, (setDefault fair possible key).lookup k = some row →
        possible.lookup k = some row ∨ fair.lookup k = some row := by
  unfold setDefault
  split
  · rename_i row hnone hrow
    have hnew : possible.get key = none := by rwa [Dict.lookup, Option.map_eq_none_iff] at hnone
    have hkeys : (possible.set key row).keys = possible.keys ++ [key] := Table.keys_upsert hnew
    refine ⟨fun k => by rw [hkeys, List.mem_append, List.mem_singleton], ?_, fun k row' hl => ?_⟩
    · have := congrArg List.length hkeys
      rw [List.length_append, Dict.keys, List.length_map, Dict.keys, List.length_map] at this
      exact this.le
    · rw [Dict.lookup_set] at hl
      split at hl
      · rename_i hk
        exact .inr (hk ▸ hrow.trans hl)
      · exact .inl hl
  · rename_i hno
    have hmem : key ∈ possible.keys := by
      by_contra hn
      obtain ⟨row, hrow⟩ := Option.ne_none_iff_exists'.1 fun h => Dict.lookup_eq_none_iff.1 h hkey
      exact hno row (Dict.lookup_eq_none_iff.2 hn) hrow
    exact ⟨fun k => (or_iff_left_of_imp fun hk => hk ▸ hmem).symm, Nat.le_succ _, fun _ _ h => .inl h⟩

theorem fillUp_cons (limit : Option Int) (fair : Dict Str PlanRow) (key : Str) (keys : List Str)
    (possible : Dict Str PlanRow) (cursor : Str) : fillUp limit fair (key :: keys) possible cursor =
      if limit.any (fun n => n ≤ (possible.rows.length : Int)) then (possible, cursor)
      else fillUp limit fair keys (setDefault fair possible key) key := rfl

/-- **Filling up** visits keys in order until the window is full, and puts in each that it visits. -/
theorem fillUp_spec (limit : Option Int) {fair : Dict Str PlanRow} : ∀ (keys : List Str) (possible : Dict Str PlanRow)
    (cursor : Str), (∀ k ∈ keys, k ∈ fair.keys) → ∃ visited rest, keys = visited ++ rest ∧
      (fillUp limit fair keys possible cursor).2 = visited.getLast?.getD cursor ∧
      (∀ k, k ∈ (fillUp limit fair keys possible cursor).1.keys ↔ k ∈ possible.keys ∨ k ∈ visited) ∧
      (rest = [] ∨ limit.any (fun n => n ≤ ((fillUp limit fair keys possible cursor).1.rows.length : Int)) = true) ∧
      (fillUp limit fair keys possible cursor).1.rows.length ≤ possible.rows.length + visited.length ∧
      ∀ k row, (fillUp limit fair keys possible cursor).1.lookup k = some row →
        possible.lookup k = some row ∨ fair.lookup k = some row
  | [], possible, cursor, _ => ⟨[], [], rfl, rfl, by simp [fillUp], .inl rfl, le_rfl, fun _ _ h => .inl h⟩
  | key :: keys, possible, cursor, hfair => by
    rw [fillUp_cons]
    split
    · rename_i hfull
      exact ⟨[], key :: keys, rfl, rfl, by simp, .inr hfull, le_rfl, fun _ _ h => .inl h⟩
    obtain ⟨hkeys, hlength, hrows⟩ := setDefault_spec possible (hfair key List.mem_cons_self)
    obtain ⟨visited, rest, rfl, hcursor, hmem, hend, hlength', hrows'⟩ :=
      fillUp_spec limit keys (setDefault fair possible key) key fun k hk => hfair k (List.mem_cons_of_mem _ hk)
    refine ⟨key :: visited, rest, rfl, ?_, fun k => ?_, hend, ?_, fun k row hl => ?_⟩
    · rw [hcursor, List.getLast?_cons]
      rfl
    · rw [hmem, hkeys, List.mem_cons, or_assoc]
    · rw [List.length_cons]
      omega
    · exact (hrows' k row hl).elim (hrows k row) .inr

/-- The keys that a plan looks at, and where it leaves its cursor. -/
def selectWindow (args : CleanupArgs) (evidence : List CleanupEvidence) : Dict Str PlanRow × Str :=
  let drawn := drawAll args evidence
  fillUp args.limit drawn.fair.rows (match args.limit with
    | none => drawn.fair.rows.keys
    | some _ => drawn.fair.ranks.map Prod.snd) drawn.priority.rows args.after

/-- Each row was drawn for an owner that left the key. -/
def DrawnRows (args : CleanupArgs) (evidence : List CleanupEvidence) (rows : Dict Str PlanRow) : Prop :=
  ∀ k row, rows.lookup k = some row → row.key = k ∧ args.admits k = true ∧
    ∃ e ∈ evidence, e.leaves k = true ∧ row.canonicalKey = e.target

theorem drawAll_drawnRows (args : CleanupArgs) (evidence : List CleanupEvidence) :
    DrawnRows args evidence (drawAll args evidence).fair.rows ∧
      DrawnRows args evidence (drawAll args evidence).priority.rows := by
  have hrows : ∀ {limit : Option Int} {after : Str} {evidence' : List CleanupEvidence}, (∀ e ∈ evidence', e ∈ evidence) →
      DrawnRows args evidence (Window.addRows ⟨limit, after, [], .empty⟩ (evidence'.flatMap (drawnRows args))).rows := by
    intro limit after evidence' hsub k row hl
    obtain ⟨hmem, rfl⟩ := (Window.lookup_addRows _ hl).resolve_right (by rintro ⟨⟩)
    obtain ⟨e, he, hrow⟩ := List.mem_flatMap.1 hmem
    obtain ⟨hleaves, hadmits, heq⟩ := mem_drawnRows.1 hrow
    exact ⟨rfl, hadmits, e, hsub e he, hleaves, by rw [heq]⟩
  obtain ⟨hfair, hpriority⟩ := drawAll_eq args evidence
  rw [hfair, hpriority]
  exact ⟨hrows fun _ => id, hrows fun e he => (List.mem_filter.1 he).1⟩

theorem Window.Kept.addRows {n : Nat} {after : Str} (hn : 0 < n) : ∀ (rows : List PlanRow) {seen : List Str} {w : Window},
    Window.Kept n after seen w → Window.Kept n after (seen ++ rows.map PlanRow.key) (w.addRows rows)
  | [], _, _, h => by rwa [List.map_nil, List.append_nil]
  | r :: rows, seen, w, h => by
    have := addRows hn rows (h.add hn r.key r)
    rwa [List.append_assoc] at this

theorem Window.kept_empty (n : Nat) (after : Str) : Window.Kept n after [] ⟨some (n : Int), after, [], .empty⟩ where
  limited := rfl
  starts := rfl
  sorted := .nil
  ranked := by simp
  keys := .refl _
  sub := by simp
  bounded := Nat.zero_le _
  least := by simp

theorem Window.length_addRows (n : Nat) (after : Str) (rows : List PlanRow) :
    (Window.addRows ⟨some (n : Int), after, [], .empty⟩ rows).rows.rows.length ≤ n := by
  rcases Nat.eq_zero_or_pos n with rfl | hn
  · have hnone : ∀ rows : List PlanRow, Window.addRows ⟨some ((0 : Nat) : Int), after, [], .empty⟩ rows =
        ⟨some ((0 : Nat) : Int), after, [], .empty⟩ := by
      intro rows
      induction rows with
      | nil => rfl
      | cons r rows ih => exact ih
    rw [hnone]
    exact le_rfl
  · have h := (Window.kept_empty n after).addRows hn rows
    exact h.length_rows.trans_le h.bounded

/-- The distinct keys that some owner has left, of those the filters admit. -/
def obsoleteKeys (args : CleanupArgs) (evidence : List CleanupEvidence) : Finset Str :=
  ((evidence.flatMap (drawnRows args)).map PlanRow.key).toFinset

theorem mem_obsoleteKeys {k : Str} : k ∈ obsoleteKeys args evidence ↔
    args.admits k = true ∧ ∃ e ∈ evidence, e.leaves k = true := by
  unfold obsoleteKeys
  simp only [List.mem_toFinset, List.mem_map, List.mem_flatMap, mem_drawnRows]
  constructor
  · rintro ⟨row, ⟨e, he, hleaves, hadmits, -⟩, rfl⟩
    exact ⟨hadmits, e, he, hleaves⟩
  · rintro ⟨hadmits, e, he, hleaves⟩
    exact ⟨⟨k, e.repoId, e.filename, e.target⟩, ⟨e, he, hleaves, hadmits, rfl⟩, rfl⟩

theorem drawAll_kept {n : Nat} (hn : 0 < n) (hlimit : args.limit = some (n : Int)) (evidence : List CleanupEvidence) :
    Window.Kept n args.after ((evidence.flatMap (drawnRows args)).map PlanRow.key) (drawAll args evidence).fair := by
  rw [(drawAll_eq args evidence).1, hlimit]
  exact (Window.kept_empty n args.after).addRows hn _

/-- The fair keys are those of the fair window. -/
theorem mem_fair_keys (hlimit : args.limit.any (· < 1) = false) {k : Str} (hk : k ∈ (match args.limit with
    | none => (drawAll args evidence).fair.rows.keys
    | some _ => (drawAll args evidence).fair.ranks.map Prod.snd)) : k ∈ (drawAll args evidence).fair.rows.keys := by
  cases hl : args.limit with
  | none => rwa [hl] at hk
  | some m =>
    rw [hl] at hk hlimit
    obtain ⟨n, rfl⟩ : ∃ n : Nat, m = n := ⟨m.toNat, by simp at hlimit; omega⟩
    exact (drawAll_kept (by simp at hlimit; omega) hl evidence).keys.mem_iff.2 hk

theorem selectWindow_drawnRows (hlimit : args.limit.any (· < 1) = false) :
    DrawnRows args evidence (selectWindow args evidence).1 := by
  obtain ⟨hfair, hpriority⟩ := drawAll_drawnRows args evidence
  obtain ⟨-, -, -, -, -, -, -, hrows⟩ := fillUp_spec args.limit _ (drawAll args evidence).priority.rows args.after
    fun k => mem_fair_keys hlimit
  exact fun k row hl => (hrows k row hl).elim (hpriority k row) (hfair k row)

/-- Without a limit every key that was left is looked at. -/
theorem mem_keys_selectWindow_all {k : Str} : k ∈ (selectWindow {} evidence).1.keys ↔ k ∈ obsoleteKeys {} evidence := by
  constructor
  · intro hk
    obtain ⟨row, hrow⟩ := Option.ne_none_iff_exists'.1 fun h => Dict.lookup_eq_none_iff.1 h hk
    obtain ⟨-, hadmits, hleaves⟩ := selectWindow_drawnRows rfl k row hrow
    exact mem_obsoleteKeys.2 ⟨hadmits, hleaves.imp fun e he => ⟨he.1, he.2.1⟩⟩
  · intro hk
    obtain ⟨visited, rest, hvisited, -, hmem, hend, -⟩ := fillUp_spec none _ (drawAll {} evidence).priority.rows []
      fun k (hk : k ∈ (drawAll {} evidence).fair.rows.keys) => hk
    obtain rfl : rest = [] := hend.resolve_right Bool.false_ne_true
    rw [List.append_nil] at hvisited
    refine (hmem k).2 (.inr (hvisited ▸ ?_))
    rw [(drawAll_eq {} evidence).1]
    refine (Window.mem_keys_addRows _ k rfl).2 (.inr ?_)
    simpa [obsoleteKeys] using hk

/-- **A key gets one verdict**, whatever else is looked at. -/
theorem noteAll_lookup_congr {args args' : CleanupArgs} {possible possible' : Dict Str PlanRow}
    (h : DrawnRows args evidence possible) (h' : DrawnRows args' evidence possible') {k : Str} (hk : k ∈ possible.keys)
    (hk' : k ∈ possible'.keys) : (noteAll possible evidence).candidates.lookup k =
      (noteAll possible' evidence).candidates.lookup k := by
  -- what was drawn for one of two owners, and shown for the first that left
  have hone : ∀ {args args' : CleanupArgs} {possible possible' : Dict Str PlanRow}, DrawnRows args evidence possible →
      DrawnRows args' evidence possible' → k ∈ possible'.keys → ∀ row,
      (noteAll possible evidence).candidates.lookup k = some row →
        (noteAll possible' evidence).candidates.lookup k = some row := by
    intro args args' possible possible' h h' hk' row hrow
    obtain ⟨drawn, hdrawn, rfl, hremovable⟩ := noteAll_lookup.1 hrow
    obtain ⟨drawn', hdrawn'⟩ := Option.ne_none_iff_exists'.1 fun hn => Dict.lookup_eq_none_iff.1 hn hk'
    obtain ⟨hkey, -, -⟩ := h k drawn hdrawn
    obtain ⟨hkey', -, e', he', hleaves', htarget'⟩ := h' k drawn' hdrawn'
    have hcanonical : drawn'.canonicalKey = drawn.canonicalKey := htarget'.trans (hremovable.2.2 e' he' hleaves')
    refine noteAll_lookup.2 ⟨drawn', hdrawn', ?_, hcanonical ▸ hremovable⟩
    unfold shownFor
    cases hfind : evidence.find? fun e => e.leaves k with
    | none => exact absurd hleaves' (List.find?_eq_none.1 hfind e' he')
    | some e =>
      obtain ⟨key, repoId, filename, canonicalKey⟩ := drawn
      obtain ⟨key', repoId', filename', canonicalKey'⟩ := drawn'
      obtain rfl : key = k := hkey
      obtain rfl : key' = key := hkey'
      obtain rfl : canonicalKey' = canonicalKey := hcanonical
      rfl
  exact Option.ext fun row => ⟨hone h h' hk' row, hone h' h hk row⟩

end Draws

/-! ## Plans -/

section Plans
variable (lower : Str → Str) (identity : RepoConfig → Str) (dedupGeneration : Config → List (Str × Str) → Except Error Str)
  (config : Config) (db : Database)

/-- The keys that `make_plan` looks at. -/
def planWindow (args : CleanupArgs) : Except Error (List Str) := do
  let rows := db.findDuplicateFiles
  let builder ← CacheKeyBuilder.new config
  let redirects ← dedupKeys lower config rows builder (acceptedPairs lower config db rows)
  return (selectWindow args (← evidence lower identity config db builder redirects)).1.keys

variable {lower identity dedupGeneration config db}

theorem makePlan_iff {args : CleanupArgs} {plan : CleanupPlan} :
    makePlan lower identity dedupGeneration config db db args = .ok plan ↔ args.limit.any (· < 1) = false ∧
      ∃ builder redirects generation ev, CacheKeyBuilder.new config = .ok builder ∧
        dedupKeys lower config db.findDuplicateFiles builder (acceptedPairs lower config db db.findDuplicateFiles) =
          .ok redirects ∧
        dedupGeneration config (acceptedPairs lower config db db.findDuplicateFiles) = .ok generation ∧
        evidence lower identity config db builder redirects = .ok ev ∧
        plan = ⟨config, db.getSnapshotRevisions, generation, (noteAll (selectWindow args ev).1 ev).candidates,
          (selectWindow args ev).2, (drawAll args ev).priority.cursor, (drawAll args ev).scanned⟩ := by
  have hsame : db.getSnapshotRevisions.eqv db.getSnapshotRevisions = true := Dict.eqv_iff.2 fun _ => rfl
  unfold makePlan
  constructor
  · intro h
    split at h
    · cases h
    rename_i hlimit
    obtain ⟨builder, hbuilder, h⟩ := bind_eq_ok.1 h
    obtain ⟨redirects, hredirects, h⟩ := bind_eq_ok.1 h
    obtain ⟨generation, hgeneration, h⟩ := bind_eq_ok.1 h
    obtain ⟨first, hfirst, h⟩ := bind_eq_ok.1 h
    obtain ⟨second, hsecond, h⟩ := bind_eq_ok.1 h
    obtain rfl : first = second := Except.ok.inj (hfirst.symm.trans hsecond)
    dsimp only at h
    rw [hsame] at h
    cases h
    exact ⟨Bool.eq_false_iff.2 hlimit, builder, redirects, generation, first, hbuilder, hredirects, hgeneration, hfirst, rfl⟩
  · rintro ⟨hlimit, builder, redirects, generation, ev, hbuilder, hredirects, hgeneration, hev, rfl⟩
    rw [if_neg (Bool.eq_false_iff.1 hlimit)]
    refine bind_eq_ok.2 ⟨builder, hbuilder, bind_eq_ok.2 ⟨redirects, hredirects, bind_eq_ok.2 ⟨generation, hgeneration,
      bind_eq_ok.2 ⟨ev, hev, bind_eq_ok.2 ⟨ev, hev, ?_⟩⟩⟩⟩⟩
    dsimp only
    rw [hsame]
    rfl

/-- **A bounded plan is the part of the whole plan in its window.** -/
theorem candidates_in_window {args : CleanupArgs} {plan : CleanupPlan}
    (h : makePlan lower identity dedupGeneration config db db args = .ok plan) :
    ∃ full window, makePlan lower identity dedupGeneration config db db {} = .ok full ∧
      planWindow lower identity config db args = .ok window ∧
      ∀ k, plan.candidates.lookup k = if k ∈ window then full.candidates.lookup k else none := by
  obtain ⟨hlimit, builder, redirects, generation, ev, hbuilder, hredirects, hgeneration, hev, rfl⟩ := makePlan_iff.1 h
  refine ⟨_, (selectWindow args ev).1.keys, makePlan_iff.2 ⟨rfl, builder, redirects, generation, ev, hbuilder, hredirects,
    hgeneration, hev, rfl⟩, ?_, fun k => ?_⟩
  · exact bind_eq_ok.2 ⟨builder, hbuilder, bind_eq_ok.2 ⟨redirects, hredirects, bind_eq_ok.2 ⟨ev, hev, rfl⟩⟩⟩
  have hdrawn : DrawnRows args ev (selectWindow args ev).1 := selectWindow_drawnRows hlimit
  split
  · rename_i hk
    refine noteAll_lookup_congr hdrawn (selectWindow_drawnRows rfl) hk (mem_keys_selectWindow_all.2 ?_)
    obtain ⟨row, hrow⟩ := Option.ne_none_iff_exists'.1 fun hn => Dict.lookup_eq_none_iff.1 hn hk
    obtain ⟨-, hadmits, e, he, hleaves, -⟩ := hdrawn k row hrow
    refine mem_obsoleteKeys.2 ⟨?_, e, he, hleaves⟩
    unfold CleanupArgs.admits at hadmits ⊢
    rw [Bool.and_eq_true] at hadmits
    exact hadmits.2
  · rename_i hk
    refine Option.eq_none_iff_forall_ne_some.2 fun row hrow => ?_
    obtain ⟨drawn, hl, -⟩ := noteAll_lookup.1 hrow
    exact hk (Dict.mem_keys_of_lookup hl)

/-- A pass with a limit visits the first keys after its cursor, half the limit at least, and leaves its cursor at the
last. -/
theorem selectWindow_turn {args : CleanupArgs} {n : Nat} (hn : 0 < n) (hlimit : args.limit = some (n : Int))
    (ev : List CleanupEvidence) : ∃ visited, (∀ k ∈ visited, k ∈ (selectWindow args ev).1.keys) ∧
      Turn (obsoleteKeys args ev) (max 1 (n / 2)) args.after visited (selectWindow args ev).2 := by
  have hkept := drawAll_kept hn hlimit ev
  have hselect : selectWindow args ev = fillUp args.limit (drawAll args ev).fair.rows
      ((drawAll args ev).fair.ranks.map Prod.snd) (drawAll args ev).priority.rows args.after := by
    unfold selectWindow
    rw [hlimit]
  obtain ⟨visited, rest, hvisited, hcursor, hmem, hend, hlength, -⟩ := fillUp_spec args.limit
    ((drawAll args ev).fair.ranks.map Prod.snd) (drawAll args ev).priority.rows args.after
    fun k hk => hkept.keys.mem_iff.2 hk
  rw [← hselect] at hcursor hmem hend hlength
  have hpriority : (drawAll args ev).priority.rows.rows.length ≤ n - max 1 (n / 2) := by
    rw [(drawAll_eq args ev).2, hlimit]
    have := Window.length_addRows (n - max 1 (n / 2)) args.priorityAfter
      ((ev.filter CleanupEvidence.warmed).flatMap (drawnRows args))
    rwa [show ((n - max 1 (n / 2) : Nat) : Int) = (n : Int) - max 1 ((n : Int) / 2) by omega] at this
  obtain ⟨front, behind, hranks, rfl, rfl⟩ := List.map_eq_append_iff.1 hvisited
  have hsorted := hkept.sorted
  rw [hranks, List.pairwise_append] at hsorted
  obtain ⟨hfront, -, hbefore⟩ := hsorted
  have hranked : ∀ r ∈ front, toLex r = rankAfter args.after r.2 := fun r hr =>
    hkept.ranked r (hranks ▸ List.mem_append_left _ hr)
  have hnodup : (front.map Prod.snd).Nodup :=
    (List.nodup_append.1 (hvisited ▸ hkept.keys.nodup_iff.1 (drawAll args ev).fair.rows.keysNodup)).1
  refine ⟨(front.map Prod.snd).toFinset, fun k hk => (hmem k).2 (.inr (List.mem_toFinset.1 hk)), ?_, ?_, ?_, ?_⟩
  · intro k hk
    obtain ⟨r, hr, rfl⟩ := List.mem_map.1 (List.mem_toFinset.1 hk)
    exact List.mem_toFinset.2 (hkept.sub r (hranks ▸ List.mem_append_left _ hr))
  · intro x hx y hy hlt
    obtain ⟨r, hr, rfl⟩ := List.mem_map.1 (List.mem_toFinset.1 hx)
    rw [← hranked r hr] at hlt
    rcases hkept.least y (List.mem_toFinset.1 hy) with hkey | ⟨-, hall⟩
    · obtain ⟨r', hr', he⟩ := List.mem_map.1 (hkept.mem_keys.1 hkey)
      have hy' : r'.2 = y := rankAfter_inj.1 ((hkept.ranked r' hr').symm.trans he)
      rw [hranks] at hr'
      rcases List.mem_append.1 hr' with hr' | hr'
      · exact List.mem_toFinset.2 (List.mem_map.2 ⟨r', hr', hy'⟩)
      · exact absurd (hbefore r hr r' hr') (not_lt.2 (he ▸ hlt.le))
    · exact absurd (hall r (hranks ▸ List.mem_append_left _ hr)) (not_lt.2 hlt.le)
  · rintro ⟨x, hx⟩
    obtain ⟨init, last, rfl⟩ := (List.eq_nil_or_concat front).resolve_left (by rintro rfl; simp at hx)
    rw [List.concat_eq_append, List.map_append, List.map_singleton, List.getLast?_concat, Option.getD_some] at hcursor
    rw [hcursor]
    refine ⟨by simp, fun y hy => ?_⟩
    obtain ⟨r, hr, rfl⟩ := List.mem_map.1 (List.mem_toFinset.1 hy)
    rw [← hranked r hr, ← hranked last (by simp)]
    rw [List.concat_eq_append] at hr hfront
    rcases List.mem_append.1 hr with hr | hr
    · exact ((List.pairwise_append.1 hfront).2.2 r hr last (by simp)).le
    · exact (List.mem_singleton.1 hr ▸ le_rfl)
  · rw [List.toFinset_card_of_nodup hnodup, List.length_map]
    rw [List.length_map] at hlength
    rcases hend with hend | hfull
    · obtain rfl := List.map_eq_nil_iff.1 hend
      rw [List.append_nil] at hranks
      by_cases hroom : front.length = n
      · exact .inr (by omega)
      · refine .inl (Finset.ext fun k => ?_)
        rw [List.mem_toFinset, obsoleteKeys, List.mem_toFinset, ← hranks, ← hkept.keys.mem_iff]
        constructor
        · intro hk
          obtain ⟨r, hr, rfl⟩ := List.mem_map.1 (hkept.keys.mem_iff.1 hk)
          exact hkept.sub r hr
        · exact fun hk => (hkept.least k hk).resolve_right fun h => hroom (hranks ▸ h.1)
    · refine .inr ?_
      rw [hlimit, Option.any_some, decide_eq_true_eq] at hfull
      omega

/-- **Passes that go on at the cursor come round to every key.** -/
theorem windows_cover {limit : Nat} (hlimit : 0 < limit) {args : Nat → CleanupArgs} {plan : Nat → CleanupPlan}
    (hfirst : (args 0).limit = some (limit : Int))
    (hplan : ∀ i, makePlan lower identity dedupGeneration config db db (args i) = .ok (plan i))
    (hnext : ∀ i, args (i + 1) = { args i with after := (plan i).cursor, priorityAfter := (plan i).priorityCursor })
    {builder : CacheKeyBuilder} {redirects : Dict Str Str} {ev : List CleanupEvidence}
    (hbuilder : CacheKeyBuilder.new config = .ok builder) (hredirects : dedupKeys lower config db.findDuplicateFiles builder
      (acceptedPairs lower config db db.findDuplicateFiles) = .ok redirects)
    (hev : evidence lower identity config db builder redirects = .ok ev) {k : Str} (hk : k ∈ obsoleteKeys (args 0) ev)
    (start : Nat) : ∃ i < ((obsoleteKeys (args 0) ev).card + max 1 (limit / 2) - 1) / max 1 (limit / 2),
      ∃ window, planWindow lower identity config db (args (start + i)) = .ok window ∧ k ∈ window := by
  have hsame : ∀ i, (args i).limit = some (limit : Int) ∧ obsoleteKeys (args i) ev = obsoleteKeys (args 0) ev := by
    intro i
    induction i with
    | zero => exact ⟨hfirst, rfl⟩
    | succ i ih => rw [hnext]; exact ih
  have hcursor : ∀ i, (args (i + 1)).after = (selectWindow (args i) ev).2 := by
    intro i
    obtain ⟨-, builder', redirects', _, ev', hbuilder', hredirects', -, hev', hp⟩ := makePlan_iff.1 (hplan i)
    obtain rfl := Except.ok.inj (hbuilder.symm.trans hbuilder')
    obtain rfl := Except.ok.inj (hredirects.symm.trans hredirects')
    obtain rfl := Except.ok.inj (hev.symm.trans hev')
    rw [hnext, hp]
  choose visited hwindow hturn using fun i => selectWindow_turn hlimit (hsame i).1 ev
  have hturns : ∀ i, Turn (obsoleteKeys (args 0) ev) (max 1 (limit / 2)) (args i).after (visited i) (args (i + 1)).after :=
    fun i => by rw [hcursor, ← (hsame i).2]; exact hturn i
  obtain ⟨i, hi, hmem⟩ := Turn.covers (by omega) hturns hk start
  refine ⟨i, hi, _, bind_eq_ok.2 ⟨builder, hbuilder, bind_eq_ok.2 ⟨redirects, hredirects, bind_eq_ok.2 ⟨ev, hev, rfl⟩⟩⟩, ?_⟩
  exact hwindow _ k hmem

/-- A pass never fails when one has not, so it can be gone on from. -/
theorem exists_passes {args : CleanupArgs} {plan : CleanupPlan}
    (h : makePlan lower identity dedupGeneration config db db args = .ok plan) :
    ∃ (passes : Nat → CleanupArgs) (plans : Nat → CleanupPlan), passes 0 = args ∧
      (∀ i, makePlan lower identity dedupGeneration config db db (passes i) = .ok (plans i)) ∧
      ∀ i, passes (i + 1) = { passes i with after := (plans i).cursor, priorityAfter := (plans i).priorityCursor } := by
  obtain ⟨hlimit, builder, redirects, generation, ev, hbuilder, hredirects, hgeneration, hev, -⟩ := makePlan_iff.1 h
  let planOf : CleanupArgs → CleanupPlan := fun args => ⟨config, db.getSnapshotRevisions, generation,
    (noteAll (selectWindow args ev).1 ev).candidates, (selectWindow args ev).2, (drawAll args ev).priority.cursor,
    (drawAll args ev).scanned⟩
  let next : CleanupArgs → CleanupArgs := fun args =>
    { args with after := (planOf args).cursor, priorityAfter := (planOf args).priorityCursor }
  have hlimits : ∀ i, (next^[i] args).limit = args.limit := by
    intro i
    induction i with
    | zero => rfl
    | succ i ih => rw [Function.iterate_succ_apply']; exact ih
  refine ⟨fun i => next^[i] args, fun i => planOf (next^[i] args), rfl, fun i => ?_, fun i =>
    Function.iterate_succ_apply' next i args⟩
  exact makePlan_iff.2 ⟨(hlimits i).symm ▸ hlimit, builder, redirects, generation, ev, hbuilder, hredirects, hgeneration, hev,
    rfl⟩

end Plans

/-- **The windowed cleanup is the full cleanup in slices**: a plan's candidates are those of the unlimited, unfiltered plan
in its window, and passes chained through the cursors bring each of `n` obsolete keys into a window of any
`n / max 1 (limit / 2)` of them, rounded up. -/
theorem makePlan_slices (lower : Str → Str) (identity : RepoConfig → Str)
    (dedupGeneration : Config → List (Str × Str) → Except Error Str) (config : Config) (db : Database) :
    (∀ (args : CleanupArgs) (plan : CleanupPlan),
      makePlan lower identity dedupGeneration config db db args = .ok plan →
      ∃ full window, makePlan lower identity dedupGeneration config db db {} = .ok full ∧
        planWindow lower identity config db args = .ok window ∧
        ∀ k, plan.candidates.lookup k = if k ∈ window then full.candidates.lookup k else none) ∧
    (∀ (limit : Nat) (args : Nat → CleanupArgs) (plan : Nat → CleanupPlan), 0 < limit →
      (args 0).limit = some (limit : Int) →
      (∀ i, makePlan lower identity dedupGeneration config db db (args i) = .ok (plan i)) →
      (∀ i, args (i + 1) = { args i with after := (plan i).cursor, priorityAfter := (plan i).priorityCursor }) →
      ∃ ev, HeardEvidence lower identity config db ev ∧ ∀ k ∈ obsoleteKeys (args 0) ev, ∀ start,
        ∃ i < ((obsoleteKeys (args 0) ev).card + max 1 (limit / 2) - 1) / max 1 (limit / 2),
          ∃ window, planWindow lower identity config db (args (start + i)) = .ok window ∧ k ∈ window) := by
  refine ⟨fun args plan h => candidates_in_window h, fun limit args plan hlimit hfirst hplan hnext => ?_⟩
  obtain ⟨-, builder, redirects, -, ev, hbuilder, hredirects, -, hev, -⟩ := makePlan_iff.1 (hplan 0)
  exact ⟨ev, ⟨builder, redirects, hbuilder, hredirects, hev⟩,
    fun k hk start => windows_cover hlimit hfirst hplan hnext hbuilder hredirects hev hk start⟩

/-- Passes over the twins, one key at a time. -/
theorem makePlan_slices_twins : ∃ (full : CleanupPlan) (window : List Str) (args : Nat → CleanupArgs)
    (plan : Nat → CleanupPlan), (∀ k, (plan 0).candidates.lookup k = if k ∈ window then full.candidates.lookup k else none) ∧
      ∃ ev, HeardEvidence asciiLower (fun repo => repo.id) twinConfig checkedTwinDb ev ∧
        ∀ k ∈ obsoleteKeys (args 0) ev, ∀ start, ∃ i < ((obsoleteKeys (args 0) ev).card + max 1 (1 / 2) - 1) / max 1 (1 / 2),
          ∃ window, planWindow asciiLower (fun repo => repo.id) twinConfig checkedTwinDb (args (start + i)) = .ok window ∧
            k ∈ window := by
  have hfound : (makePlan asciiLower (fun repo => repo.id) (fun _ _ => .ok []) twinConfig checkedTwinDb checkedTwinDb
      { limit := some 1 }).toOption.isSome = true := by decide +kernel
  cases h : makePlan asciiLower (fun repo => repo.id) (fun _ _ => .ok []) twinConfig checkedTwinDb checkedTwinDb
      { limit := some 1 } with
  | error e => simp [h, Except.toOption] at hfound
  | ok first =>
    obtain ⟨args, plan, hfirst, hplan, hnext⟩ := exists_passes h
    have hslices := makePlan_slices asciiLower (fun repo => repo.id) (fun _ _ => .ok []) twinConfig checkedTwinDb
    obtain ⟨full, window, -, -, hcandidates⟩ := hslices.1 (args 0) (plan 0) (hplan 0)
    exact ⟨full, window, args, plan, hcandidates,
      hslices.2 1 args plan Nat.one_pos (by rw [hfirst]; rfl) hplan hnext⟩

end RepoWatch
