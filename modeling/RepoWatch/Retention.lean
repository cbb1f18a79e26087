import Mathlib.Data.Prod.Lex
import Mathlib.Order.Basic
import RepoWatch.Lib.Ranking
import RepoWatch.Repositories
import RepoWatch.Rollups
/-!
# Retention — history and requests cut to a number of rows

Requests are cut behind a boundary row, in chunks whose rows SQLite picks, and the first rows stay whatever it picks
(`pruneRequestsBySize_exact`).  Events are numbered by their timestamps alone, while the history that is shown breaks ties
by the row's id: the latest events stay exactly when no tie lies across the cut (`pruneEventsBySize_iff`).
-/
namespace RepoWatch

open Lib Lib.Ranking

/-! ## Requests -/

/-- `ORDER BY ts DESC, id ASC`. -/
def RequestRow.place (row : RequestRow) : Strᵒᵈ ×ₗ Nat := toLex (OrderDual.toDual row.ts, row.id)

/-- What `SELECT id … LIMIT chunk` picks of the matching rows, in each round of the loop. -/
structure Picker (chunk : Nat) where
  pick : Nat → List RequestRow → List RequestRow
  sub : ∀ round rows, (pick round rows).Subperm rows
  length : ∀ round rows, (pick round rows).length = min chunk rows.length

namespace RequestLog

/-- The rows, the latest first. -/
def recent (log : RequestLog) : List RequestRow := ranked RequestRow.place log.events.rows

/-- `_delete_requests`: chunks of matching rows, until one is not full. -/
def deleteRequests {chunk : Nat} (picker : Picker chunk) (p : RequestRow → Bool) : Nat → Nat → RequestLog → Nat →
    Option (RequestLog × Nat)
  | 0, _, _, _ => none
  | fuel + 1, round, log, deleted =>
    let chosen := picker.pick round (log.events.rows.filter p)
    let log := chosen.foldl deleteRow log
    let deleted := deleted + chosen.length
    if chosen.length < chunk then some (log, deleted) else deleteRequests picker p fuel (round + 1) log deleted

/-- `prune_requests_by_size`; each of its two deletes has its own picks. -/
def pruneRequestsBySize {chunk : Nat} (older same : Picker chunk) (fuel : Nat) (log : RequestLog) (maxRows : Nat) :
    Option (RequestLog × Nat) :=
  match log.recent[maxRows]? with
  | none => some (log, 0)
  | some boundary => do
    let (log, deleted) ← deleteRequests older (fun row => decide (row.ts < boundary.ts)) fuel 0 log 0
    let (log, deleted') ← deleteRequests same (fun row => decide (row.ts = boundary.ts ∧ boundary.id ≤ row.id)) fuel 0 log 0
    let total := deleted + deleted'
    return (if total = 0 then log else log.sweepRollups, total)

/-! ## What the chunks leave -/

section Delete
variable {log log' : RequestLog} {rows : List RequestRow} {p : RequestRow → Bool} {chunk : Nat}

theorem place_nodup (log : RequestLog) : (log.events.rows.map RequestRow.place).Nodup := by
  refine List.Nodup.of_map (fun place : Strᵒᵈ ×ₗ Nat => (ofLex place).2) ?_
  rw [List.map_map]
  exact log.events.keysNodup

theorem events_foldl_deleteRow : ∀ (rows : List RequestRow) (log : RequestLog),
    (rows.foldl deleteRow log).events.rows = log.events.rows.filter fun row => decide (row.id ∉ rows.map RequestRow.id)
  | [], log => by simp
  | row :: rows, log => by
    rw [List.foldl_cons, events_foldl_deleteRow rows, deleteRow_events]
    simp only [Table.delete, Table.filter, List.filter_filter]
    refine List.filter_congr fun r _ => ?_
    simp only [List.map_cons, List.mem_cons, not_or, Bool.decide_and, ne_eq]
    exact Bool.and_comm _ _

/-- Rows that are picked among the matching ones go, and the others stay. -/
theorem events_chosen (hsub : rows.Subperm (log.events.rows.filter p)) :
    ((rows.foldl deleteRow log).events.rows.filter p).length + rows.length = (log.events.rows.filter p).length ∧
      (rows.foldl deleteRow log).events.rows.filter (fun row => !p row) = log.events.rows.filter fun row => !p row := by
  have hnodup : (log.events.rows.filter p |>.map RequestRow.id).Nodup := (List.filter_sublist.map _).nodup log.events.keysNodup
  obtain ⟨mid, hmid, hsublist⟩ := hsub
  obtain ⟨rest, hmidrest⟩ := hsublist.exists_perm_append
  have hperm : (log.events.rows.filter p).Perm (rows ++ rest) := hmidrest.trans (hmid.append_right rest)
  have hsplit : ((rows ++ rest).map RequestRow.id).Nodup := (hperm.map _).nodup_iff.1 hnodup
  rw [List.map_append] at hsplit
  obtain ⟨-, -, hdisjoint⟩ := List.nodup_append.1 hsplit
  rw [events_foldl_deleteRow, List.filter_filter, List.filter_filter]
  constructor
  · have hcomm : (log.events.rows.filter fun row => p row && decide (row.id ∉ rows.map RequestRow.id)) =
        (log.events.rows.filter p).filter fun row => decide (row.id ∉ rows.map RequestRow.id) := by
      rw [List.filter_filter]
      exact List.filter_congr fun row _ => Bool.and_comm _ _
    have hgone : rows.filter (fun row => decide (row.id ∉ rows.map RequestRow.id)) = [] :=
      List.filter_eq_nil_iff.2 fun row hrow => by simpa using ⟨row, hrow, rfl⟩
    have hrest : rest.filter (fun row => decide (row.id ∉ rows.map RequestRow.id)) = rest :=
      List.filter_eq_self.2 fun row hrow => decide_eq_true fun hmem =>
        hdisjoint row.id hmem row.id (List.mem_map_of_mem hrow) rfl
    rw [hcomm, (hperm.filter _).length_eq, List.filter_append, hgone, hrest, List.nil_append, hperm.length_eq,
      List.length_append, Nat.add_comm]
  · refine List.filter_congr fun row hrow => ?_
    cases hp : p row with
    | true => rfl
    | false =>
      refine decide_eq_true fun hmem => ?_
      obtain ⟨row', hrow', hid⟩ := List.mem_map.1 hmem
      obtain ⟨hmem', hp'⟩ := List.mem_filter.1 (hsublist.subset (hmid.mem_iff.2 hrow'))
      rw [List.inj_on_of_nodup_map log.events.keysNodup hmem' hrow hid, hp] at hp'
      cases hp'

/-- **The loop ends with the matching rows gone**, however its chunks are picked. -/
theorem deleteRequests_eq (hchunk : 0 < chunk) (picker : Picker chunk) (p : RequestRow → Bool) : ∀ {fuel : Nat}
    (round deleted : Nat) (log : RequestLog), (log.events.rows.filter p).length < fuel →
      ∃ log', deleteRequests picker p fuel round log deleted =
      some (log', deleted + (log.events.rows.filter p).length) ∧ log'.events.rows = log.events.rows.filter fun row => !p row
  | fuel + 1, round, deleted, log, hfuel => by
    unfold deleteRequests
    dsimp only
    have hlength := picker.length round (log.events.rows.filter p)
    obtain ⟨hcount, hother⟩ := events_chosen (picker.sub round (log.events.rows.filter p))
    generalize picker.pick round (log.events.rows.filter p) = chosen at hlength hcount hother ⊢
    split
    · rename_i hshort
      have hnone : (chosen.foldl deleteRow log).events.rows.filter p = [] := List.length_eq_zero_iff.1 (by omega)
      refine ⟨_, by rw [show chosen.length = (log.events.rows.filter p).length by omega], ?_⟩
      rw [← hother]
      refine (List.filter_eq_self.2 fun row hrow => ?_).symm
      rw [Bool.not_eq_true']
      exact Bool.eq_false_iff.2 fun hp => List.not_mem_nil (hnone ▸ List.mem_filter.2 ⟨hrow, hp⟩)
    · rename_i hfull
      obtain ⟨log', hrun, hrows⟩ := deleteRequests_eq hchunk picker p (round + 1) (deleted + chosen.length)
        (chosen.foldl deleteRow log) (show _ < fuel by omega)
      exact ⟨log', by rw [hrun, ← hcount]; simp only [Nat.add_assoc, Nat.add_comm], hrows.trans hother⟩

theorem place_lt_iff {row boundary : RequestRow} : row.place < boundary.place ↔
    ¬ row.ts < boundary.ts ∧ ¬ (row.ts = boundary.ts ∧ boundary.id ≤ row.id) := by
  unfold RequestRow.place
  rw [Prod.Lex.toLex_lt_toLex, OrderDual.toDual_lt_toDual, OrderDual.toDual_inj]
  rcases lt_trichotomy row.ts boundary.ts with h | h | h
  · simp [h, h.ne, h.not_gt]
  · simp [h]
  · simp [h, h.ne', h.not_gt]

theorem length_recent (log : RequestLog) : log.recent.length = log.events.rows.length := (perm_ranked _ _).length_eq

/-- **The latest requests stay**, and a second call finds nothing to remove. -/
theorem pruneRequestsBySize_exact (hchunk : 0 < chunk) (older same : Picker chunk) (log : RequestLog) (maxRows fuel : Nat)
    (hfuel : log.events.rows.length < fuel) :
    ∃ log' deleted, pruneRequestsBySize older same fuel log maxRows = some (log', deleted) ∧
      log'.recent = log.recent.take maxRows ∧ log'.events.rows.length + deleted = log.events.rows.length ∧
      ∀ (older' same' : Picker chunk) (fuel' : Nat), pruneRequestsBySize older' same' fuel' log' maxRows = some (log', 0) := by
  have hsecond : ∀ {log' : RequestLog}, log'.recent.length ≤ maxRows → ∀ (older' same' : Picker chunk) (fuel' : Nat),
      pruneRequestsBySize older' same' fuel' log' maxRows = some (log', 0) := by
    intro log' hle older' same' fuel'
    unfold pruneRequestsBySize
    rw [List.getElem?_eq_none hle]
  cases hboundary : log.recent[maxRows]? with
  | none =>
    have hle : log.recent.length ≤ maxRows := List.getElem?_eq_none_iff.1 hboundary
    exact ⟨log, 0, hsecond hle older same fuel, (List.take_of_length_le hle).symm, rfl, hsecond hle⟩
  | some boundary =>
    obtain ⟨log₁, hrun₁, hrows₁⟩ := deleteRequests_eq hchunk older (fun row => decide (row.ts < boundary.ts)) 0 0 log
      ((List.length_filter_le _ _).trans_lt hfuel)
    have hle₁ : log₁.events.rows.length ≤ log.events.rows.length := by
      rw [hrows₁]
      exact List.length_filter_le _ _
    obtain ⟨log₂, hrun₂, hrows₂⟩ := deleteRequests_eq hchunk same
      (fun row => decide (row.ts = boundary.ts ∧ boundary.id ≤ row.id)) 0 0 log₁
      (((List.length_filter_le _ _).trans hle₁).trans_lt hfuel)
    rw [Nat.zero_add] at hrun₁ hrun₂
    have hrows : log₂.events.rows = log.events.rows.filter fun row => decide (row.place < boundary.place) := by
      rw [hrows₂, hrows₁, List.filter_filter]
      refine List.filter_congr fun row _ => ?_
      rw [← decide_not, ← decide_not, ← Bool.decide_and]
      exact decide_eq_decide.2 (and_comm.trans place_lt_iff.symm)
    have hrecent : log₂.recent = log.recent.take maxRows := by
      unfold recent
      rw [hrows, ranked_filter (place_nodup log)]
      exact filter_lt_eq_take (pairwise_ranked (place_nodup log)) hboundary
    have hevents : ∀ total : Nat, (if total = 0 then log₂ else log₂.sweepRollups).events = log₂.events := fun total => by
      split <;> rfl
    have hkept : ∀ total : Nat,
      (if total = 0 then log₂ else log₂.sweepRollups).recent = log.recent.take maxRows := fun total => by
      rw [recent, hevents]
      exact hrecent
    have hcount₁ := List.length_eq_length_filter_add (l := log.events.rows) fun row => decide (row.ts < boundary.ts)
    have hcount₂ := List.length_eq_length_filter_add (l := log₁.events.rows) fun row =>
      decide (row.ts = boundary.ts ∧ boundary.id ≤ row.id)
    rw [← hrows₁] at hcount₁
    rw [← hrows₂] at hcount₂
    generalize (log.events.rows.filter _).length = removed₁ at hrun₁ hcount₁
    generalize (log₁.events.rows.filter _).length = removed₂ at hrun₂ hcount₂
    have hrun : pruneRequestsBySize older same fuel log maxRows =
        some (if removed₁ + removed₂ = 0 then log₂ else log₂.sweepRollups, removed₁ + removed₂) := by
      unfold pruneRequestsBySize
      rw [hboundary]
      dsimp only
      rw [hrun₁, Option.bind_eq_bind, Option.bind_some, hrun₂]
      rfl
    refine ⟨_, _, hrun, hkept _, ?_, hsecond ?_⟩
    · rw [hevents]
      omega
    · rw [hkept]
      exact List.length_take_le _ _

end Delete
end RequestLog

/-- The first matching rows. -/
def Picker.first (chunk : Nat) : Picker chunk where
  pick _ rows := rows.take chunk
  sub _ _ := (List.take_sublist _ _).subperm
  length _ _ := List.length_take

/-- Three requests of one second. -/
def burst : RequestLog :=
  let request : RequestLog.NewRequest := ⟨"t".toList, none, none, "GET".toList, "/a".toList, none, none⟩
  [request, request, request].foldl RequestLog.insertRow ⟨.empty, 0, false, .empty, .empty⟩

theorem pruneRequestsBySize_burst :
    (RequestLog.pruneRequestsBySize (.first 1) (.first 1) 4 burst 2).map (fun r => (r.1.recent.map RequestRow.id, r.2)) =
      some ([1, 2], 1) := by
  obtain ⟨log', deleted, hrun, hrecent, hcount, -⟩ :=
    RequestLog.pruneRequestsBySize_exact Nat.one_pos (.first 1) (.first 1) burst 2 4 (by decide)
  rw [hrun, Option.map_some, hrecent]
  have hids : (burst.recent.take 2).map RequestRow.id = [1, 2] := by decide
  have hlength : log'.events.rows.length = 2 := by rw [← RequestLog.length_recent, hrecent]; decide
  have hall : burst.events.rows.length = 3 := by decide
  rw [hids, show deleted = 1 by omega]
/-! ## Events -/

/-- A row of `repo_events` with its id. -/
structure HistoryRow extends EventRow where
  id : Nat
  deriving DecidableEq

/-- `ORDER BY ts DESC, id DESC`. -/
def HistoryRow.place (row : HistoryRow) : Strᵒᵈ ×ₗ Natᵒᵈ := toLex (OrderDual.toDual row.ts, OrderDual.toDual row.id)

/-- `ORDER BY ts DESC`. -/
def HistoryRow.time (row : HistoryRow) : Strᵒᵈ := OrderDual.toDual row.ts

abbrev HistoryTable := Table HistoryRow Nat HistoryRow.id

namespace HistoryTable
variable (events : HistoryTable)

def eventsOf (repoId : Str) : List HistoryRow := events.rows.filter fun row => decide (row.repoId = repoId)

/-- The events of a repository, the latest first. -/
def history (repoId : Str) : List HistoryRow := ranked HistoryRow.place (events.eventsOf repoId)

/-- `get_history`. -/
def getHistory (repoId : Str) (limit : Nat) : List HistoryRow := (events.history repoId).take limit

/-- The event that `get_status` reports. -/
def lastEvent (repoId : Str) : Option HistoryRow := (events.getHistory repoId 1).head?

/-- `ROW_NUMBER() OVER (PARTITION BY repo_id ORDER BY ts DESC)`, the partitions being sorted as `order` says. -/
def rowNumber (order : Str → List HistoryRow) (row : HistoryRow) : Nat := (order row.repoId).idxOf row + 1

/-- `prune_events_by_size`: the table that it leaves and the number of rows removed. -/
def pruneEventsBySize (order : Str → List HistoryRow) (maxRows : Nat) : HistoryTable × Nat :=
  let removed := events.rows.filter fun row => decide (maxRows < rowNumber order row)
  (events.filter fun row => decide (row.id ∉ removed.map HistoryRow.id), removed.length)

/-- Each partition is sorted by its timestamps, ties in any order. -/
def Orders (order : Str → List HistoryRow) : Prop := ∀ repoId, Numbered HistoryRow.time (events.eventsOf repoId) (order repoId)

/-- The latest events of each repository stay. -/
structure KeepsLatest (order : Str → List HistoryRow) (maxRows : Nat) : Prop where
  history : ∀ repoId, (events.pruneEventsBySize order maxRows).1.history repoId = (events.history repoId).take maxRows
  last : ∀ repoId, (events.pruneEventsBySize order maxRows).1.lastEvent repoId = events.lastEvent repoId
  count : (events.pruneEventsBySize order maxRows).1.rows.length + (events.pruneEventsBySize order maxRows).2 = events.rows.length

/-- No two events of one repository and one second lie on both sides of the cut. -/
def NoTieAt (maxRows : Nat) : Prop :=
  ∀ repoId a b, (events.history repoId)[maxRows - 1]? = some a → (events.history repoId)[maxRows]? = some b → a.ts ≠ b.ts

variable {events} {order : Str → List HistoryRow} {maxRows : Nat}

theorem place_nodup (events : HistoryTable) (repoId : Str) : ((events.eventsOf repoId).map HistoryRow.place).Nodup := by
  refine List.Nodup.of_map (fun place : Strᵒᵈ ×ₗ Natᵒᵈ => (OrderDual.ofDual (ofLex place).2 : Nat)) ?_
  rw [List.map_map]
  exact (List.filter_sublist.map _).nodup events.keysNodup

theorem rows_pruneEventsBySize (events : HistoryTable) (order : Str → List HistoryRow) (maxRows : Nat) :
    (events.pruneEventsBySize order maxRows).1.rows = events.rows.filter fun row => decide (rowNumber order row ≤ maxRows) := by
  refine List.filter_congr fun row hrow => decide_eq_decide.2 ?_
  rw [List.mem_map, ← not_lt, not_iff_not]
  constructor
  · rintro ⟨row', hrow', hid⟩
    obtain ⟨hmem', hnumber⟩ := List.mem_filter.1 hrow'
    rw [List.inj_on_of_nodup_map events.keysNodup hmem' hrow hid] at hnumber
    exact of_decide_eq_true hnumber
  · exact fun hnumber => ⟨row, List.mem_filter.2 ⟨hrow, decide_eq_true hnumber⟩, rfl⟩

theorem filter_idxOf_lt {l : List HistoryRow} (h : l.Nodup) (n : Nat) :
    l.filter (fun row => decide (l.idxOf row + 1 ≤ n)) = l.take n := by
  have hmem : l.filter (fun row => decide (l.idxOf row + 1 ≤ n)) = l.filter fun row => decide (row ∈ l.take n) :=
    List.filter_congr fun row hrow => decide_eq_decide.2 (List.mem_take_iff_idxOf_lt hrow).symm
  have hsplit := List.take_append_drop n l
  rw [hmem]
  generalize l.take n = front at hsplit ⊢
  rw [← hsplit] at h ⊢
  obtain ⟨-, -, hdisjoint⟩ := List.nodup_append.1 h
  rw [List.filter_append, List.filter_eq_self.2 fun row hrow => decide_eq_true hrow, List.filter_eq_nil_iff.2, List.append_nil]
  exact fun row hrow => by simpa using fun hfront => hdisjoint row hfront row hrow rfl

/-- **What is left of a repository** are the first rows of its partition. -/
theorem perm_history_prune (h : events.Orders order) (repoId : Str) :
    ((events.pruneEventsBySize order maxRows).1.history repoId).Perm ((order repoId).take maxRows) := by
  have hrows : (events.pruneEventsBySize order maxRows).1.eventsOf repoId =
      (events.eventsOf repoId).filter fun row => decide ((order repoId).idxOf row + 1 ≤ maxRows) := by
    unfold eventsOf
    rw [rows_pruneEventsBySize, List.filter_filter, List.filter_filter]
    refine List.filter_congr fun row _ => ?_
    by_cases hid : row.repoId = repoId
    · rw [rowNumber, hid, Bool.and_comm]
    · simp [hid]
  have hnodup : (order repoId).Nodup := (h repoId).perm.nodup_iff.2 (List.Nodup.of_map _ (place_nodup events repoId))
  rw [← filter_idxOf_lt hnodup, history, hrows]
  exact (perm_ranked _ _).trans ((h repoId).perm.symm.filter _)

theorem length_prune (events : HistoryTable) (order : Str → List HistoryRow) (maxRows : Nat) :
    (events.pruneEventsBySize order maxRows).1.rows.length + (events.pruneEventsBySize order maxRows).2 = events.rows.length := by
  rw [rows_pruneEventsBySize, List.length_eq_length_filter_add (l := events.rows) fun row =>
    decide (rowNumber order row ≤ maxRows)]
  simp only [← decide_not, not_le]
  rfl

theorem place_mono {row row' : HistoryRow} (h : row.place ≤ row'.place) : row.time ≤ row'.time := by
  rcases (Prod.Lex.toLex_le_toLex).1 h with h | h
  · exact h.le
  · exact h.1.le

/-- **The latest events stay whatever the numbering of ties** exactly when no tie lies across the cut. -/
theorem pruneEventsBySize_iff (events : HistoryTable) {maxRows : Nat} (hmax : 1 ≤ maxRows) :
    (∀ order, events.Orders order → events.KeepsLatest order maxRows) ↔ events.NoTieAt maxRows := by
  obtain ⟨n, rfl⟩ := Nat.exists_eq_add_of_le' hmax
  have hmono : ∀ row row' : HistoryRow, row.place ≤ row'.place → row.time ≤ row'.time := fun _ _ => place_mono
  have hiff := fun repoId => numbered_take_iff (n := n) (place_nodup events repoId) hmono
  constructor
  · intro h repoId a b ha hb
    refine fun hts => (hiff repoId).1 (fun order hnumbered => ?_) a b ha hb (congrArg OrderDual.toDual hts)
    -- only this repository's ties are renumbered
    have horders : events.Orders fun r => if r = repoId then order else events.history r := fun r => by
      dsimp only
      split
      · rename_i heq
        rwa [heq]
      · exact ⟨perm_ranked _ _, (pairwise_le_ranked HistoryRow.place (events.eventsOf r)).imp place_mono⟩
    have hperm : ((events.pruneEventsBySize _ (n + 1)).1.history repoId).Perm _ := perm_history_prune horders repoId
    rw [(h _ horders).history, if_pos rfl] at hperm
    exact hperm.symm
  · intro h order horders
    have hperm : ∀ repoId,
      ((events.pruneEventsBySize order (n + 1)).1.history repoId).Perm ((events.history repoId).take (n + 1)) :=
      fun repoId => (perm_history_prune horders repoId).trans ((hiff repoId).2 (fun a b ha hb heq =>
        h repoId a b ha hb (OrderDual.toDual_inj.1 heq)) _ (horders repoId))
    have hhistory : ∀ repoId, (events.pruneEventsBySize order (n + 1)).1.history repoId = (events.history repoId).take (n + 1) :=
      fun repoId => (eq_ranked ((hperm repoId).symm.trans (perm_ranked _ _))
        ((pairwise_ranked (place_nodup events repoId)).sublist (List.take_sublist _ _))).symm
    refine ⟨hhistory, fun repoId => ?_, length_prune events order _⟩
    rw [lastEvent, getHistory, hhistory, List.take_take, Nat.min_eq_left (Nat.le_add_left 1 n)]
    rfl

/-- An event, and two of one later second. -/
def threeEvents : HistoryTable := ((Table.empty.upsert ⟨⟨"r".toList, "s".toList, ["c".toList], [], []⟩, 1⟩).upsert
  ⟨⟨"r".toList, "t".toList, ["a".toList], [], []⟩, 2⟩).upsert ⟨⟨"r".toList, "t".toList, ["b".toList], [], []⟩, 3⟩

theorem orders_threeEvents : threeEvents.Orders fun r => (threeEvents.eventsOf r).reverse := fun r => by
  refine ⟨List.reverse_perm _, List.pairwise_reverse.2 (List.Pairwise.sublist List.filter_sublist ?_)⟩
  decide

/-- The earlier event is removed, and the two of one second stay in their order. -/
theorem pruneEventsBySize_three : threeEvents.KeepsLatest (fun r => (threeEvents.eventsOf r).reverse) 2 ∧
    ((threeEvents.pruneEventsBySize (fun r => (threeEvents.eventsOf r).reverse) 2).1.history "r".toList).map HistoryRow.id =
      [3, 2] := by
  have hkeeps : threeEvents.KeepsLatest (fun r => (threeEvents.eventsOf r).reverse) 2 := by
    refine (pruneEventsBySize_iff threeEvents (show 1 ≤ 2 by decide)).2 (fun r a b ha hb => ?_) _ orders_threeEvents
    by_cases hr : r = "r".toList
    · subst hr
      obtain rfl := Option.some.inj ha
      obtain rfl := Option.some.inj hb
      decide
    · have hempty : threeEvents.eventsOf r = [] :=
        List.filter_eq_nil_iff.2 fun row hrow => by
          have hrepo : row.repoId = "r".toList := by
            revert row
            decide
          exact fun h => hr ((of_decide_eq_true h).symm.trans hrepo)
      rw [history, hempty] at ha
      cases ha
  refine ⟨hkeeps, ?_⟩
  rw [hkeeps.history]
  decide

/-- Two events of one second. -/
def twoEvents : HistoryTable := (Table.empty.upsert ⟨⟨"r".toList, "t".toList, ["a".toList], [], []⟩, 1⟩).upsert
  ⟨⟨"r".toList, "t".toList, ["b".toList], [], []⟩, 2⟩

theorem orders_twoEvents : twoEvents.Orders fun r => twoEvents.eventsOf r := fun r => by
  refine ⟨.refl _, List.Pairwise.sublist List.filter_sublist ?_⟩
  refine .cons (fun row hrow => ?_) (List.pairwise_singleton _ _)
  rw [List.mem_singleton.1 hrow]
  exact le_rfl

theorem latest_event_removed : ¬ ∀ order, twoEvents.Orders order → twoEvents.KeepsLatest order 1 := by
  intro h
  have hlast := (h _ orders_twoEvents).last "r".toList
  have hother : (twoEvents.pruneEventsBySize (fun r => twoEvents.eventsOf r) 1).1.lastEvent "r".toList ≠
      twoEvents.lastEvent "r".toList := by decide
  exact hother hlast

end HistoryTable
end RepoWatch
