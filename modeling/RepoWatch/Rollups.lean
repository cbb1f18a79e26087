import RepoWatch.Lib.Run
import RepoWatch.Lib.Tally
import RepoWatch.Text
/-!
# Rollups — request statistics kept beside the request log

Triggers add a row of `request_events` to the counters and take it away again, a backfill groups the history that is there
before them, and a sweep drops what has fallen to zero.  All of them encode the scope of a row in the same way, so the
counters are the groups of the log in every state that is reached with the triggers in place (`rollups_run`).
-/
namespace RepoWatch

open Lib

/-- A row of `request_events`. -/
structure RequestRow where
  id : Nat
  ts : Str
  repoId : Option Str
  clientIp : Option Str
  method : Str
  path : Str
  status : Option Str
  cacheStatus : Option Str
  deriving DecidableEq

inductive CounterKind where
  | repo | ip | path
  deriving DecidableEq

/-- `kind`, `repo_key` and `key`. -/
abbrev CounterKey := CounterKind × Str × Str

/-- `hour` and `repo_key`. -/
abbrev HourKey := Str × Str

structure RequestLog where
  events : Table RequestRow Nat RequestRow.id
  lastId : Nat
  triggers : Bool
  counters : Tally CounterKey
  hourly : Tally HourKey

/-! ## Triggers -/

/-- `CASE WHEN repo_id IS NULL THEN '' ELSE 'r:' || repo_id END`. -/
def repoKey (repoId : Option Str) : Str :=
  match repoId with
  | none => []
  | some repoId => "r:".toList ++ repoId

def globalKey : Str := "*".toList

namespace RequestRow
variable (row : RequestRow)

/-- `CASE WHEN cache_status = 'HIT' THEN 1 ELSE 0 END`. -/
def hit : Nat := if row.cacheStatus = some "HIT".toList then 1 else 0

/-- `substr(ts, 1, 13)`. -/
def hour : Str := row.ts.take 13

end RequestRow

namespace RequestLog

/-- `request_rollup_insert`. -/
def rollupInsert (row : RequestRow) (log : RequestLog) : RequestLog :=
  { log with
    counters := ((log.counters.add (.repo, repoKey row.repoId, []) row.hit).add (.path, repoKey row.repoId, row.path) 0).add
      (.path, globalKey, row.path) 0
    hourly := log.hourly.add (row.hour, repoKey row.repoId) row.hit }

/-- `request_rollup_ip_insert`. -/
def rollupIpInsert (row : RequestRow) (log : RequestLog) : RequestLog :=
  match row.clientIp with
  | none => log
  | some ip =>
    { log with counters := (log.counters.add (.ip, repoKey row.repoId, ip) 0).add (.ip, globalKey, ip) 0 }

/-- `request_rollup_delete`. -/
def rollupDelete (row : RequestRow) (log : RequestLog) : RequestLog :=
  { log with
    counters := ((log.counters.sub (.repo, repoKey row.repoId, []) row.hit).sub (.path, repoKey row.repoId, row.path) 0).sub
      (.path, globalKey, row.path) 0
    hourly := log.hourly.sub (row.hour, repoKey row.repoId) row.hit }

/-- `request_rollup_ip_delete`. -/
def rollupIpDelete (row : RequestRow) (log : RequestLog) : RequestLog :=
  match row.clientIp with
  | none => log
  | some ip =>
    { log with counters := (log.counters.sub (.ip, repoKey row.repoId, ip) 0).sub (.ip, globalKey, ip) 0 }

/-! ## Statements -/

/-- The columns of a row that is inserted. -/
structure NewRequest where
  ts : Str
  repoId : Option Str
  clientIp : Option Str
  method : Str
  path : Str
  status : Option Str
  cacheStatus : Option Str

/-- `INSERT INTO request_events`, one row, with the triggers that are there. -/
def insertRow (log : RequestLog) (new : NewRequest) : RequestLog :=
  let row : RequestRow := ⟨log.lastId + 1, new.ts, new.repoId, new.clientIp, new.method, new.path, new.status, new.cacheStatus⟩
  let log := { log with events := log.events.upsert row, lastId := log.lastId + 1 }
  if log.triggers then (log.rollupInsert row).rollupIpInsert row else log

/-- `DELETE FROM request_events` of one row that is there. -/
def deleteRow (log : RequestLog) (row : RequestRow) : RequestLog :=
  let log := { log with events := log.events.delete row.id }
  if log.triggers then (log.rollupDelete row).rollupIpDelete row else log

/-- A chunk of `_delete_requests`: the first matching rows. -/
def deleteChunk (log : RequestLog) (p : RequestRow → Bool) (limit : Nat) : RequestLog :=
  ((log.events.rows.filter p).take limit).foldl deleteRow log

/-- `_sweep_rollups`. -/
def sweepRollups (log : RequestLog) : RequestLog :=
  { log with counters := log.counters.sweep, hourly := log.hourly.sweep }

/-- The keys and hits of `SELECT … FROM request_events`, before `GROUP BY`. -/
def select {κ : Type} (log : RequestLog) (f : RequestRow → Option κ) (hit : RequestRow → Nat) : List (κ × Nat) :=
  log.events.rows.filterMap fun row => (f row).map fun k => (k, hit row)

/-- `_request_rollups`, once the triggers are missing: `INSERT … SELECT … GROUP BY` for each kind and scope. -/
def requestRollups (log : RequestLog) : Option RequestLog :=
  if log.triggers then some log
  else do
    let counters : Tally CounterKey := .empty
    let counters ← counters.insertNew (Tally.grouped (log.select (fun row => some (.repo, repoKey row.repoId, []))
      RequestRow.hit))
    let counters ← counters.insertNew (Tally.grouped (log.select (fun row => row.clientIp.map fun ip =>
      (.ip, repoKey row.repoId, ip)) fun _ => 0))
    let counters ← counters.insertNew (Tally.grouped (log.select (fun row => row.clientIp.map fun ip =>
      (.ip, globalKey, ip)) fun _ => 0))
    let counters ← counters.insertNew (Tally.grouped (log.select (fun row => some (.path, repoKey row.repoId, row.path))
      fun _ => 0))
    let counters ← counters.insertNew (Tally.grouped (log.select (fun row => some (.path, globalKey, row.path)) fun _ => 0))
    let hourly ← Tally.insertNew .empty (Tally.grouped (log.select (fun row => some (row.hour, repoKey row.repoId))
      RequestRow.hit))
    return { log with triggers := true, counters := counters, hourly := hourly }

inductive RequestOp where
  | insert (news : List NewRequest)
  | delete (p : RequestRow → Bool)
  | deleteChunk (p : RequestRow → Bool) (limit : Nat)
  | sweep
  | initialise
  /-- A database from before the rollups: whatever their tables hold stays. -/
  | dropTriggers

def apply (log : RequestLog) : RequestOp → Option RequestLog
  | .insert news => some (news.foldl insertRow log)
  | .delete p => some ((log.events.rows.filter p).foldl deleteRow log)
  | .deleteChunk p limit => some (log.deleteChunk p limit)
  | .sweep => some log.sweepRollups
  | .initialise => log.requestRollups
  | .dropTriggers => some { log with triggers := false }

/-- Pre-existing history, with nothing known of the rollup tables. -/
structure Initial (log : RequestLog) : Prop where
  untriggered : log.triggers = false
  ids : ∀ row ∈ log.events.rows, row.id ≤ log.lastId

end RequestLog

/-! ## Scopes -/

inductive RequestScope where
  | unmatched
  | repository (repoId : Str)
  | all
  deriving DecidableEq

namespace RequestScope

/-- `repo_key` of the rows of a scope. -/
def key : RequestScope → Str
  | unmatched => repoKey none
  | repository repoId => repoKey (some repoId)
  | all => globalKey

def covers (row : RequestRow) : RequestScope → Bool
  | unmatched => row.repoId.isNone
  | repository repoId => decide (row.repoId = some repoId)
  | all => true

end RequestScope

namespace CounterKind

/-- The column that a kind counts; a row without it is not counted. -/
def column (row : RequestRow) : CounterKind → Option Str
  | repo => some []
  | ip => row.clientIp
  | path => some row.path

/-- Requests are not counted per kind `repo` over all repositories. -/
def Keeps : CounterKind → RequestScope → Prop
  | repo, .all => False
  | _, _ => True

/-- Hits are kept for kind `repo` only. -/
def hit (row : RequestRow) : CounterKind → Nat
  | repo => row.hit
  | _ => 0

end CounterKind

namespace RequestLog

/-- The log rows of a `GROUP BY` over a kind, in a scope. -/
def group (log : RequestLog) (kind : CounterKind) (scope : RequestScope) (key : Str) : List RequestRow :=
  log.events.rows.filter fun row => scope.covers row && decide (kind.column row = some key)

def hourGroup (log : RequestLog) (hour : Str) (scope : RequestScope) : List RequestRow :=
  log.events.rows.filter fun row => scope.covers row && decide (row.hour = hour)

/-- The rows with a positive total are the groups, and no row is negative. -/
structure Exact (log : RequestLog) : Prop where
  counter : ∀ (kind : CounterKind) (scope : RequestScope) (key : Str) (total hits : Int), 0 < total →
    ((⟨(kind, RequestScope.key scope, key), total, hits⟩ : TallyRow CounterKey) ∈ log.counters.rows ↔
      kind.Keeps scope ∧ log.group kind scope key ≠ [] ∧ total = (log.group kind scope key).length ∧
      hits = Tally.sumOf ((log.group kind scope key).map kind.hit))
  hour : ∀ (hour : Str) (scope : RequestScope) (total hits : Int), 0 < total →
    ((⟨(hour, scope.key), total, hits⟩ : TallyRow HourKey) ∈ log.hourly.rows ↔
      scope ≠ RequestScope.all ∧ log.hourGroup hour scope ≠ [] ∧ total = (log.hourGroup hour scope).length ∧
      hits = Tally.sumOf ((log.hourGroup hour scope).map RequestRow.hit))
  counterScope : ∀ row ∈ log.counters.rows, 0 < row.total → ∃ (kind : CounterKind) (scope : RequestScope) (key : Str),
    row.key = (kind, scope.key, key)
  hourScope : ∀ row ∈ log.hourly.rows, 0 < row.total → ∃ (hour : Str) (scope : RequestScope), row.key = (hour, scope.key)
  counterNonneg : ∀ row ∈ log.counters.rows, 0 ≤ row.total ∧ 0 ≤ row.hits
  hourNonneg : ∀ row ∈ log.hourly.rows, 0 ≤ row.total ∧ 0 ≤ row.hits

end RequestLog

/-! ## Entries of a row -/

namespace RequestRow

/-- What a row adds to `request_counters`, in the order of its triggers. -/
def counterEntries (row : RequestRow) : List (CounterKey × Nat) :=
  [((.repo, repoKey row.repoId, []), row.hit), ((.path, repoKey row.repoId, row.path), 0), ((.path, globalKey, row.path), 0)] ++
  (match row.clientIp with
   | none => []
   | some ip => [((.ip, repoKey row.repoId, ip), 0), ((.ip, globalKey, ip), 0)])

def hourEntry (row : RequestRow) : HourKey × Nat := ((row.hour, repoKey row.repoId), row.hit)

end RequestRow

namespace RequestLog
variable {log log' log₀ : RequestLog} {row : RequestRow} {es : List (CounterKey × Nat)} {hs : List (HourKey × Nat)}

theorem counts_rollupInsert (log : RequestLog) (row : RequestRow) (hc : Tally.Counts log.counters es)
    (hh : Tally.Counts log.hourly hs) :
    Tally.Counts ((log.rollupInsert row).rollupIpInsert row).counters (row.counterEntries ++ es) ∧
    Tally.Counts ((log.rollupInsert row).rollupIpInsert row).hourly (row.hourEntry :: hs) := by
  have hthree := ((hc.add (.repo, repoKey row.repoId, []) row.hit).add (.path, repoKey row.repoId, row.path) 0).add
    (.path, globalKey, row.path) 0
  have hhour := hh.add (row.hour, repoKey row.repoId) row.hit
  unfold rollupIpInsert RequestRow.counterEntries
  cases row.clientIp with
  | none =>
    refine ⟨hthree.perm (List.perm_iff_count.2 fun e => ?_), hhour⟩
    simp only [List.cons_append, List.nil_append, List.count_cons]
    omega
  | some ip =>
    have hfive := (hthree.add (.ip, repoKey row.repoId, ip) 0).add (.ip, globalKey, ip) 0
    refine ⟨hfive.perm (List.perm_iff_count.2 fun e => ?_), hhour⟩
    simp only [List.cons_append, List.nil_append, List.count_cons]
    omega

theorem counts_rollupDelete (log : RequestLog) (hc : Tally.Counts log.counters (row.counterEntries ++ es))
    (hh : Tally.Counts log.hourly (row.hourEntry :: hs)) :
    Tally.Counts ((log.rollupDelete row).rollupIpDelete row).counters es ∧
    Tally.Counts ((log.rollupDelete row).rollupIpDelete row).hourly hs := by
  unfold rollupIpDelete
  unfold RequestRow.counterEntries at hc
  cases hip : row.clientIp with
  | none =>
    rw [hip] at hc
    exact ⟨hc.sub.sub.sub, hh.sub⟩
  | some ip =>
    rw [hip] at hc
    exact ⟨hc.sub.sub.sub.sub.sub, hh.sub⟩

/-- The rollups count the log. -/
structure InStep (log : RequestLog) : Prop where
  counters : Tally.Counts log.counters (log.events.rows.flatMap RequestRow.counterEntries)
  hourly : Tally.Counts log.hourly (log.events.rows.map RequestRow.hourEntry)

structure Consistent (log : RequestLog) : Prop where
  ids : ∀ row ∈ log.events.rows, row.id ≤ log.lastId
  inStep : log.triggers = true → log.InStep

/-! ## Single rows -/

theorem rollupInsert_frame (log : RequestLog) (row : RequestRow) :
    ((log.rollupInsert row).rollupIpInsert row).events = log.events ∧
    ((log.rollupInsert row).rollupIpInsert row).lastId = log.lastId := by
  unfold rollupIpInsert
  cases row.clientIp <;> exact ⟨rfl, rfl⟩

theorem rollupDelete_frame (log : RequestLog) (row : RequestRow) :
    ((log.rollupDelete row).rollupIpDelete row).events = log.events ∧
    ((log.rollupDelete row).rollupIpDelete row).lastId = log.lastId := by
  unfold rollupIpDelete
  cases row.clientIp <;> exact ⟨rfl, rfl⟩

theorem get_eq_none_of_lt (ids : ∀ row ∈ log.events.rows, row.id ≤ log.lastId) : log.events.get (log.lastId + 1) = none :=
  Table.get_eq_none_iff.2 fun r hr he => by
    have := ids r hr
    omega

theorem Consistent.insertRow (h : log.Consistent) (new : NewRequest) : (log.insertRow new).Consistent := by
  obtain ⟨ids, inStep⟩ := h
  have hnone := get_eq_none_of_lt ids
  unfold RequestLog.insertRow
  generalize hrow : (⟨log.lastId + 1, new.ts, new.repoId, new.clientIp, new.method, new.path, new.status,
    new.cacheStatus⟩ : RequestRow) = row
  have hid : row.id = log.lastId + 1 := hrow ▸ rfl
  have hrows : (log.events.upsert row).rows = log.events.rows ++ [row] := Table.rows_upsert (hid ▸ hnone)
  have hids : ∀ r ∈ (log.events.upsert row).rows, r.id ≤ log.lastId + 1 := by
    intro r hr
    rw [hrows, List.mem_append, List.mem_singleton] at hr
    rcases hr with hr | rfl
    · have := ids r hr
      omega
    · exact hid.le
  dsimp only
  split
  · rename_i htriggers
    obtain ⟨hc, hh⟩ := inStep htriggers
    have hcounts := counts_rollupInsert { log with events := log.events.upsert row, lastId := log.lastId + 1 } row hc hh
    obtain ⟨events, lastId⟩ :=
      rollupInsert_frame { log with events := log.events.upsert row, lastId := log.lastId + 1 } row
    refine ⟨by rw [events, lastId]; exact hids, fun _ => ⟨hcounts.1.perm ?_, hcounts.2.perm ?_⟩⟩
    · rw [events, hrows, List.flatMap_append, List.flatMap_singleton]
      exact List.perm_append_comm
    · rw [events, hrows, List.map_append]
      exact (List.perm_append_singleton _ _).symm
  · rename_i htriggers
    exact ⟨hids, fun ht => absurd ht htriggers⟩

theorem Consistent.deleteRow (h : log.Consistent) (hrow : row ∈ log.events.rows) : (log.deleteRow row).Consistent := by
  obtain ⟨ids, inStep⟩ := h
  have hperm : log.events.rows.Perm (row :: (log.events.delete row.id).rows) := Table.perm_delete hrow
  have hids : ∀ r ∈ (log.events.delete row.id).rows, r.id ≤ log.lastId :=
    fun r hr => ids r (List.mem_filter.1 hr).1
  unfold RequestLog.deleteRow
  dsimp only
  split
  · rename_i htriggers
    obtain ⟨hc, hh⟩ := inStep htriggers
    have hcounts := counts_rollupDelete { log with events := log.events.delete row.id }
      (hc.perm (hperm.flatMap_right RequestRow.counterEntries)) (hh.perm (hperm.map RequestRow.hourEntry))
    obtain ⟨events, lastId⟩ := rollupDelete_frame { log with events := log.events.delete row.id } row
    refine ⟨by rw [events, lastId]; exact hids, fun _ => ⟨?_, ?_⟩⟩
    · rw [events]
      exact hcounts.1
    · rw [events]
      exact hcounts.2
  · rename_i htriggers
    exact ⟨hids, fun ht => absurd ht htriggers⟩

theorem deleteRow_events : (log.deleteRow row).events = log.events.delete row.id := by
  unfold deleteRow
  dsimp only
  split
  · exact (rollupDelete_frame _ row).1
  · rfl

theorem Consistent.insertRows (h : log.Consistent) (news : List NewRequest) :
    (news.foldl RequestLog.insertRow log).Consistent := by
  induction news generalizing log with
  | nil => exact h
  | cons new news ih => exact ih (h.insertRow new)

/-- **Rows of the log can go one after the other**: the rest of them stay until their turn. -/
theorem Consistent.deleteRows {rows : List RequestRow} (h : log.Consistent) (hrows : ∀ row ∈ rows, row ∈ log.events.rows)
    (hnodup : (rows.map RequestRow.id).Nodup) : (rows.foldl RequestLog.deleteRow log).Consistent := by
  induction rows generalizing log with
  | nil => exact h
  | cons row rows ih =>
    rw [List.map_cons, List.nodup_cons] at hnodup
    refine ih (h.deleteRow (hrows row List.mem_cons_self)) (fun r hr => ?_) hnodup.2
    have hne : r.id ≠ row.id := fun he => hnodup.1 (he ▸ List.mem_map_of_mem hr)
    rw [deleteRow_events]
    exact List.mem_filter.2 ⟨hrows r (List.mem_cons_of_mem _ hr), decide_eq_true hne⟩

/-! ## Backfill -/

theorem mem_select {κ : Type} {f : RequestRow → Option κ} {hit : RequestRow → Nat} {k : κ} :
    k ∈ (log.select f hit).map Prod.fst ↔ ∃ row ∈ log.events.rows, f row = some k := by
  unfold select
  simp

theorem select_some {κ : Type} (f : RequestRow → κ) (hit : RequestRow → Nat) :
    log.select (fun row => some (f row)) hit = log.events.rows.map fun row => (f row, hit row) := by
  unfold select
  simp only [Option.map_some]
  exact congrFun List.filterMap_eq_map' _

theorem perm_counterEntries (log : RequestLog) :
    (log.select (fun row => some (CounterKind.repo, repoKey row.repoId, ([] : Str))) RequestRow.hit ++
      log.select (fun row => row.clientIp.map fun ip => (CounterKind.ip, repoKey row.repoId, ip)) (fun _ => 0) ++
      log.select (fun row => row.clientIp.map fun ip => (CounterKind.ip, globalKey, ip)) (fun _ => 0) ++
      log.select (fun row => some (CounterKind.path, repoKey row.repoId, row.path)) (fun _ => 0) ++
      log.select (fun row => some (CounterKind.path, globalKey, row.path)) fun _ => 0).Perm
    (log.events.rows.flatMap RequestRow.counterEntries) := by
  unfold select
  generalize log.events.rows = rows
  refine List.perm_iff_count.2 fun e => ?_
  simp only [List.count_append]
  induction rows with
  | nil => rfl
  | cons row rows ih =>
    rw [List.flatMap_cons, List.count_append, ← ih]
    unfold RequestRow.counterEntries
    cases hip : row.clientIp with
    | none =>
      simp only [List.filterMap_cons, hip, Option.map_some, Option.map_none, List.count_cons, List.count_append, List.count_nil]
      omega
    | some ip =>
      simp only [List.filterMap_cons, hip, Option.map_some, List.count_cons, List.count_append, List.count_nil]
      omega

theorem repoKey_ne_globalKey (repoId : Option Str) : repoKey repoId ≠ globalKey := by
  cases repoId with
  | none => exact List.cons_ne_nil _ _ |>.symm
  | some repoId => exact fun h => absurd (List.head_eq_of_cons_eq h) (by decide)

/-- The order in which the backfill comes to a key. -/
def backfillRegion : CounterKey → Nat
  | (.repo, _, _) => 0
  | (.ip, repoKey, _) => if repoKey = globalKey then 2 else 1
  | (.path, repoKey, _) => if repoKey = globalKey then 4 else 3

theorem region_select {f : RequestRow → Option CounterKey} {hit : RequestRow → Nat} {n : Nat}
    (hf : ∀ row k, f row = some k → backfillRegion k = n) : ∀ k ∈ (log.select f hit).map Prod.fst, backfillRegion k = n := by
  intro k hk
  obtain ⟨row, -, hrow⟩ := mem_select.1 hk
  exact hf row k hrow

/-- **The backfill never meets a key twice**, and what it builds counts the history. -/
theorem requestRollups_spec (htriggers : log.triggers = false) : ∃ log', log.requestRollups = some log' ∧
    log'.triggers = true ∧ log'.events = log.events ∧ log'.lastId = log.lastId ∧ log'.InStep := by
  unfold requestRollups
  rw [if_neg (by rw [htriggers]; exact Bool.false_ne_true)]
  obtain ⟨c₁, h₁, hc₁, hb₁⟩ := Tally.Counts.empty.insertNext (log.select (fun row =>
    some (CounterKind.repo, repoKey row.repoId, ([] : Str))) RequestRow.hit) backfillRegion 0
    (fun _ hk => absurd rfl hk) (region_select fun row k hk => by
      cases hk
      rfl)
  obtain ⟨c₂, h₂, hc₂, hb₂⟩ := hc₁.insertNext (log.select (fun row => row.clientIp.map fun ip =>
    (CounterKind.ip, repoKey row.repoId, ip)) fun _ => 0) backfillRegion 1 hb₁ (region_select fun row k hk => by
      obtain ⟨ip, -, rfl⟩ := Option.map_eq_some_iff.1 hk
      exact if_neg (repoKey_ne_globalKey _))
  obtain ⟨c₃, h₃, hc₃, hb₃⟩ := hc₂.insertNext (log.select (fun row => row.clientIp.map fun ip =>
    (CounterKind.ip, globalKey, ip)) fun _ => 0) backfillRegion 2 hb₂ (region_select fun row k hk => by
      obtain ⟨ip, -, rfl⟩ := Option.map_eq_some_iff.1 hk
      rfl)
  obtain ⟨c₄, h₄, hc₄, hb₄⟩ := hc₃.insertNext (log.select (fun row => some (CounterKind.path, repoKey row.repoId, row.path))
    fun _ => 0) backfillRegion 3 hb₃ (region_select fun row k hk => by
      cases hk
      exact if_neg (repoKey_ne_globalKey _))
  obtain ⟨c₅, h₅, hc₅, -⟩ := hc₄.insertNext (log.select (fun row => some (CounterKind.path, globalKey, row.path)) fun _ => 0)
    backfillRegion 4 hb₄ (region_select fun row k hk => by
      cases hk
      rfl)
  obtain ⟨hourly, h₆, hc₆, -⟩ := Tally.Counts.empty.insertNew (log.select (fun row => some (row.hour, repoKey row.repoId))
    RequestRow.hit) fun _ _ => rfl
  refine ⟨{ log with triggers := true, counters := c₅, hourly := hourly }, ?_, rfl, rfl, rfl, hc₅.perm ?_, ?_⟩
  · simp only [h₁, h₂, h₃, h₄, h₅, h₆, Option.bind_eq_bind, Option.bind_some]
    rfl
  · rw [List.nil_append]
    exact perm_counterEntries log
  · rw [List.nil_append, select_some] at hc₆
    exact hc₆

/-! ## Groups -/

end RequestLog

namespace RequestScope

/-- The scope that a row is counted in beside the global one. -/
def ofRow : Option Str → RequestScope
  | none => unmatched
  | some repoId => repository repoId

theorem key_ofRow (repoId : Option Str) : (ofRow repoId).key = repoKey repoId := by
  cases repoId <;> rfl

/-- **Two scopes never share a row.** -/
theorem key_injective : Function.Injective key := by
  intro a b h
  have hglobal : ∀ repoId, repoKey repoId ≠ globalKey := RequestLog.repoKey_ne_globalKey
  cases a with
  | unmatched =>
    cases b with
    | unmatched => rfl
    | repository r => cases h
    | all => exact absurd h (hglobal none)
  | repository r =>
    cases b with
    | unmatched => cases h
    | repository r' =>
      cases h
      rfl
    | all => exact absurd h (hglobal (some r))
  | all =>
    cases b with
    | unmatched => exact absurd h.symm (hglobal none)
    | repository r => exact absurd h.symm (hglobal (some r))
    | all => rfl

theorem repoKey_eq_key {row : RequestRow} {scope : RequestScope} :
    repoKey row.repoId = scope.key ↔ scope ≠ all ∧ scope.covers row = true := by
  rw [← key_ofRow, key_injective.eq_iff]
  cases hrow : row.repoId with
  | none => cases scope <;> simp [ofRow, covers, hrow]
  | some repoId => cases scope <;> simp [ofRow, covers, hrow]

theorem globalKey_eq_key {scope : RequestScope} : globalKey = scope.key ↔ scope = all :=
  ⟨fun h => (@key_injective all scope h).symm, fun h => h ▸ rfl⟩

end RequestScope

namespace RequestLog
variable {log log' log₀ : RequestLog}

/-- The entries of a kind that is counted in a scope of its own and in the global one. -/
theorem entriesOf_scopes (row : RequestRow) (kind : CounterKind) (column : Str) (scope : RequestScope) (key : Str) :
    Tally.entriesOf [((kind, repoKey row.repoId, column), 0), ((kind, globalKey, column), 0)] (kind, scope.key, key) =
      if scope.covers row && decide (column = key) then [((kind, scope.key, key), 0)] else [] := by
  by_cases hscope : scope = .all
  · subst hscope
    by_cases hkey : column = key
    · have hne := repoKey_ne_globalKey row.repoId
      simp [Tally.entriesOf_cons, RequestScope.key, RequestScope.covers, hkey, hne]
    · simp [Tally.entriesOf_cons, hkey]
  · have hglobal : globalKey ≠ scope.key := fun h => hscope (RequestScope.globalKey_eq_key.1 h)
    by_cases hcovers : repoKey row.repoId = scope.key
    · have hrow := (RequestScope.repoKey_eq_key.1 hcovers).2
      by_cases hkey : column = key <;> simp [Tally.entriesOf_cons, hkey, hglobal, hcovers, hrow]
    · have hrow : ¬ scope.covers row = true := fun h => hcovers (RequestScope.repoKey_eq_key.2 ⟨hscope, h⟩)
      simp [Tally.entriesOf_cons, hglobal, hcovers, hrow]

theorem entriesOf_counterEntries (row : RequestRow) (kind : CounterKind) (scope : RequestScope) (key : Str)
    (hkeeps : kind.Keeps scope) : Tally.entriesOf row.counterEntries (kind, scope.key, key) =
      if scope.covers row && decide (kind.column row = some key) then [((kind, scope.key, key), kind.hit row)] else [] := by
  have hips : ∀ kind, kind ≠ CounterKind.ip → Tally.entriesOf (match row.clientIp with
      | none => []
      | some ip => [((CounterKind.ip, repoKey row.repoId, ip), 0), ((CounterKind.ip, globalKey, ip), 0)])
      (kind, scope.key, key) = [] := by
    intro kind hne
    cases row.clientIp <;> simp [Tally.entriesOf_cons, Ne.symm hne]
  unfold RequestRow.counterEntries
  rw [Tally.entriesOf_append, Tally.entriesOf_cons]
  cases kind with
  | repo =>
    have hscope : scope ≠ .all := fun h => by
      subst h
      exact hkeeps
    rw [hips _ (by simp)]
    by_cases hcovers : repoKey row.repoId = scope.key
    · have hrow := (RequestScope.repoKey_eq_key.1 hcovers).2
      by_cases hkey : key = []
      · subst hkey
        simp [Tally.entriesOf_cons, hcovers, hrow, CounterKind.column, CounterKind.hit]
      · simp [Tally.entriesOf_cons, Ne.symm hkey, CounterKind.column]
    · have hrow : ¬ scope.covers row = true := fun h => hcovers (RequestScope.repoKey_eq_key.2 ⟨hscope, h⟩)
      simp [Tally.entriesOf_cons, hcovers, hrow]
  | ip =>
    rw [if_neg (by simp)]
    cases hip : row.clientIp with
    | none => simp [Tally.entriesOf_cons, CounterKind.column, hip]
    | some ip =>
      dsimp only
      rw [entriesOf_scopes row .ip ip scope key]
      simp [Tally.entriesOf_cons, CounterKind.column, CounterKind.hit, hip]
  | path =>
    rw [if_neg (by simp), entriesOf_scopes row .path row.path scope key, hips _ (by simp), List.append_nil]
    simp [CounterKind.column, CounterKind.hit]

theorem entriesOf_log (rows : List RequestRow) (kind : CounterKind) (scope : RequestScope) (key : Str)
    (hkeeps : kind.Keeps scope) : Tally.entriesOf (rows.flatMap RequestRow.counterEntries) (kind, scope.key, key) =
      (rows.filter fun row => scope.covers row && decide (kind.column row = some key)).map
        fun row => ((kind, scope.key, key), kind.hit row) := by
  induction rows with
  | nil => rfl
  | cons row rows ih =>
    rw [List.flatMap_cons, Tally.entriesOf_append, entriesOf_counterEntries row kind scope key hkeeps, ih, List.filter_cons]
    split <;> rfl

theorem entriesOf_hours (rows : List RequestRow) (hour : Str) (scope : RequestScope) (hscope : scope ≠ .all) :
    Tally.entriesOf (rows.map RequestRow.hourEntry) (hour, scope.key) =
      (rows.filter fun row => scope.covers row && decide (row.hour = hour)).map fun row => ((hour, scope.key), row.hit) := by
  induction rows with
  | nil => rfl
  | cons row rows ih =>
    rw [List.map_cons, Tally.entriesOf_cons, ih, List.filter_cons]
    unfold RequestRow.hourEntry
    by_cases hcovers : repoKey row.repoId = scope.key
    · have hrow := (RequestScope.repoKey_eq_key.1 hcovers).2
      by_cases hhour : row.hour = hour <;> simp [hcovers, hrow, hhour]
    · have hrow : ¬ scope.covers row = true := fun h => hcovers (RequestScope.repoKey_eq_key.2 ⟨hscope, h⟩)
      simp [hcovers, hrow]

theorem scope_of_counterEntries {rows : List RequestRow} {k : CounterKey}
    (hk : k ∈ (rows.flatMap RequestRow.counterEntries).map Prod.fst) :
    ∃ kind, ∃ scope : RequestScope, ∃ key, kind.Keeps scope ∧ k = (kind, scope.key, key) := by
  obtain ⟨e, he, rfl⟩ := List.mem_map.1 hk
  obtain ⟨row, -, he⟩ := List.mem_flatMap.1 he
  have hkeeps : CounterKind.repo.Keeps (.ofRow row.repoId) := by
    cases row.repoId <;> trivial
  have hkey := RequestScope.key_ofRow row.repoId
  unfold RequestRow.counterEntries at he
  rw [← hkey] at he
  rcases List.mem_append.1 he with he | he
  · simp only [List.mem_cons, List.not_mem_nil, or_false] at he
    rcases he with rfl | rfl | rfl
    · exact ⟨.repo, .ofRow row.repoId, [], hkeeps, rfl⟩
    · exact ⟨.path, .ofRow row.repoId, row.path, trivial, rfl⟩
    · exact ⟨.path, .all, row.path, trivial, rfl⟩
  · cases hip : row.clientIp with
    | none =>
      rw [hip] at he
      cases he
    | some ip =>
      rw [hip] at he
      simp only [List.mem_cons, List.not_mem_nil, or_false] at he
      rcases he with rfl | rfl
      · exact ⟨.ip, .ofRow row.repoId, ip, trivial, rfl⟩
      · exact ⟨.ip, .all, ip, trivial, rfl⟩

theorem scope_of_hours {rows : List RequestRow} {k : HourKey} (hk : k ∈ (rows.map RequestRow.hourEntry).map Prod.fst) :
    ∃ hour, ∃ scope : RequestScope, scope ≠ .all ∧ k = (hour, scope.key) := by
  obtain ⟨e, he, rfl⟩ := List.mem_map.1 hk
  obtain ⟨row, -, rfl⟩ := List.mem_map.1 he
  refine ⟨row.hour, .ofRow row.repoId, ?_, ?_⟩
  · cases row.repoId <;> exact RequestScope.noConfusion
  · rw [RequestScope.key_ofRow]
    rfl

/-- **Rollups that count the log are its groups.** -/
theorem InStep.exact (h : log.InStep) : log.Exact := by
  obtain ⟨hc, hh⟩ := h
  constructor
  case counter =>
    intro kind scope key total hits hpos
    refine (hc.mem_rows_iff hpos).trans ?_
    by_cases hkeeps : kind.Keeps scope
    · have hentries := entriesOf_log log.events.rows kind scope key hkeeps
      rw [← Tally.count_pos, Tally.count, Tally.weight, hentries, List.length_map, List.map_map, List.length_pos_iff]
      exact (and_iff_right hkeeps).symm
    · refine iff_of_false (fun hk => hkeeps ?_) fun hk => hkeeps hk.1
      obtain ⟨kind', scope', key', hkeeps', hk'⟩ := scope_of_counterEntries hk.1
      simp only [Prod.mk.injEq] at hk'
      rw [hk'.1, RequestScope.key_injective hk'.2.1]
      exact hkeeps'
  case hour =>
    intro hour scope total hits hpos
    refine (hh.mem_rows_iff hpos).trans ?_
    by_cases hscope : scope = .all
    · refine iff_of_false (fun hk => ?_) fun hk => hk.1 hscope
      obtain ⟨hour', scope', hscope', hk'⟩ := scope_of_hours hk.1
      simp only [Prod.mk.injEq] at hk'
      exact hscope' (RequestScope.key_injective hk'.2 ▸ hscope)
    · have hentries := entriesOf_hours log.events.rows hour scope hscope
      rw [← Tally.count_pos, Tally.count, Tally.weight, hentries, List.length_map, List.map_map, List.length_pos_iff]
      exact (and_iff_right hscope).symm
  case counterScope =>
    intro row hrow hpos
    obtain ⟨kind, scope, key, -, hk⟩ := scope_of_counterEntries ((hc.mem_rows_iff hpos).1 hrow).1
    exact ⟨kind, scope, key, hk⟩
  case hourScope =>
    intro row hrow hpos
    obtain ⟨hour, scope, -, hk⟩ := scope_of_hours ((hh.mem_rows_iff hpos).1 hrow).1
    exact ⟨hour, scope, hk⟩
  case counterNonneg => exact fun row hrow => hc.nonneg hrow
  case hourNonneg => exact fun row hrow => hh.nonneg hrow

/-! ## Runs -/

theorem Consistent.apply {op : RequestOp} (h : log.Consistent) (hop : log.apply op = some log') : log'.Consistent := by
  cases op with
  | insert news =>
    cases hop
    exact h.insertRows news
  | delete p =>
    cases hop
    exact h.deleteRows (fun row hrow => (List.mem_filter.1 hrow).1)
      ((List.filter_sublist.map RequestRow.id).nodup log.events.keysNodup)
  | deleteChunk p limit =>
    cases hop
    have hsub : List.Sublist ((log.events.rows.filter p).take limit) log.events.rows :=
      (List.take_sublist _ _).trans List.filter_sublist
    exact h.deleteRows (fun row hrow => hsub.subset hrow) ((hsub.map RequestRow.id).nodup log.events.keysNodup)
  | sweep =>
    cases hop
    exact ⟨h.ids, fun ht => ⟨(h.inStep ht).counters.sweep, (h.inStep ht).hourly.sweep⟩⟩
  | initialise =>
    cases htriggers : log.triggers with
    | true =>
      have hsame : log.requestRollups = some log := if_pos htriggers
      obtain rfl : log = log' := Option.some.inj (hsame.symm.trans hop)
      exact h
    | false =>
      obtain ⟨log'', hlog'', -, hevents, hlastId, hinStep⟩ := requestRollups_spec htriggers
      obtain rfl : log'' = log' := Option.some.inj (hlog''.symm.trans hop)
      exact ⟨by rw [hevents, hlastId]; exact h.ids, fun _ => hinStep⟩
  | dropTriggers =>
    cases hop
    exact ⟨h.ids, fun ht => Bool.noConfusion ht⟩

/-- **The rollups equal the log in every state with the triggers in place**, and scopes never share a row. -/
theorem rollups_run {ops : List RequestOp} (h₀ : log₀.Initial)
    (hrun : Run (fun log op log' => log.apply op = some log') log₀ ops log)
    (htriggers : log.triggers = true) : log.Exact ∧ Function.Injective RequestScope.key := by
  have hinit : log₀.Consistent := ⟨h₀.ids, fun ht => Bool.noConfusion (h₀.untriggered.symm.trans ht)⟩
  have hlog : log.Consistent := hrun.invariant Consistent (fun _ _ _ h hop => h.apply hop) hinit
  exact ⟨(hlog.inStep htriggers).exact, RequestScope.key_injective⟩

/-- A new database. -/
def new : RequestLog := ⟨.empty, 0, false, .empty, .empty⟩

def hitRequest : NewRequest := ⟨"2026-01-02T03:04:05".toList, none, some "10.0.0.1".toList, "GET".toList,
  "/a".toList, some "200".toList, some "HIT".toList⟩

theorem new_initial : new.Initial := ⟨rfl, fun _ hrow => by cases hrow⟩

theorem rollups_run_hit : ∃ log, Run (fun log op log' => apply log op = some log') new [.initialise, .insert [hitRequest]] log ∧
    log.Exact ∧ Function.Injective RequestScope.key := by
  have hrun : Run (fun log op log' => apply log op = some log') new ([] ++ [.initialise] ++ [.insert [hitRequest]]) _ :=
    .snoc (.snoc (.nil new) rfl) rfl
  exact ⟨_, hrun, rollups_run new_initial hrun rfl⟩

/-- **Hits are not counted per path**: one hit gives its path a row without hits. -/
theorem hits_not_counted : ¬ ∀ (log₀ log : RequestLog) (ops : List RequestOp), log₀.Initial →
    Run (fun log op log' => apply log op = some log') log₀ ops log → log.triggers = true →
    ∀ (kind : CounterKind) (scope : RequestScope) (key : Str) (total hits : Int), 0 < total →
      ((⟨(kind, scope.key, key), total, hits⟩ : TallyRow CounterKey) ∈ log.counters.rows ↔
        log.group kind scope key ≠ [] ∧ total = (log.group kind scope key).length ∧
        hits = Tally.sumOf ((log.group kind scope key).map RequestRow.hit)) := by
  intro h
  have hrun : Run (fun log op log' => apply log op = some log') new ([] ++ [.initialise] ++ [.insert [hitRequest]]) _ :=
    .snoc (.snoc (.nil new) rfl) rfl
  have hpath := (h _ _ _ new_initial hrun rfl .path .all "/a".toList 1 1 (by decide)).2 (by decide)
  exact absurd hpath (by decide)

end RequestLog
end RepoWatch
