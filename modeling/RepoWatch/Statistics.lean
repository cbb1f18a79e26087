import Mathlib.Data.Prod.Lex
import RepoWatch.Lib.Ranking
import RepoWatch.Rollups
/-!
# Statistics — what the pages read of the rollups

The queries behind the statistics read the counters and never the log.  In every state that is reached with the triggers in
place they answer what the log itself would (`statistics_run`).
-/
namespace RepoWatch

open Lib Lib.Ranking

namespace RequestLog

/-- `f"r:{repo_id}" if repo_id else "*"`. -/
def topScope (repoId : Option Str) : Str :=
  match repoId.filter (· ≠ []) with
  | some repoId => "r:".toList ++ repoId
  | none => globalKey

/-- `ORDER BY total DESC, key`. -/
def byCount (entry : Str × Int) : Intᵒᵈ ×ₗ Str := toLex (OrderDual.toDual entry.2, entry.1)

/-- `RequestsStore._top`. -/
def top (log : RequestLog) (kind : CounterKind) (repoId : Option Str) (limit : Nat) : List (Str × Int) :=
  let rows := log.counters.rows.filter fun row =>
    decide (row.key.1 = kind ∧ row.key.2.1 = topScope repoId ∧ 0 < row.total)
  (ranked byCount (rows.map fun row => (row.key.2.2, row.total))).take limit

def getTopClientIps (log : RequestLog) (repoId : Option Str) (limit : Nat) : List (Str × Int) := log.top .ip repoId limit

def getTopRequestPaths (log : RequestLog) (repoId : Option Str) (limit : Nat) : List (Str × Int) := log.top .path repoId limit

/-- `repo_key[2:] if repo_key else None`. -/
def answeredRepo (repoKey : Str) : Option Str := if repoKey = [] then none else some (repoKey.drop 2)

/-- `RequestsStore.get_request_hit_stats`: total and hits. -/
def getRequestHitStats (log : RequestLog) : Dict (Option Str) (Int × Int) :=
  let rows := log.counters.rows.filter fun row => decide (row.key.1 = .repo ∧ 0 < row.total)
  .ofPairs (rows.map fun row => (answeredRepo row.key.2.1, row.total, row.hits))

/-- `RequestsStore.get_requests_timeline`, from the hour of the clock on: hour, total and hits. -/
def getRequestsTimeline (log : RequestLog) (firstHour : Str) (repoId : Option Str) : List (Str × Int × Int) :=
  if repoId = some [] then []
  else
    let rows := log.hourly.rows.filter fun row =>
      decide (firstHour ≤ row.key.1) && repoId.all (fun r => decide (row.key.2 = "r:".toList ++ r)) && decide (0 < row.total)
    (sortedStr (rows.map fun row => row.key.1).dedup).map fun hour =>
      let group := rows.filter fun row => decide (row.key.1 = hour)
      (hour, Tally.sumOfInts (group.map TallyRow.total), Tally.sumOfInts (group.map TallyRow.hits))

/-! ## The same of the log -/

/-- The rows of the log that a query is about. -/
def rowsIn (log : RequestLog) (scope : RequestScope) : List RequestRow := log.events.rows.filter fun row => scope.covers row

/-- The most frequent values of a column, those of one count in order. -/
def topOfLog (log : RequestLog) (kind : CounterKind) (scope : RequestScope) (limit : Nat) : List (Str × Int) :=
  (ranked byCount (((log.rowsIn scope).filterMap kind.column).dedup.map fun key =>
    (key, ((log.group kind scope key).length : Int)))).take limit

def hitsOf (rows : List RequestRow) : Int × Int := (rows.length, Tally.sumOf (rows.map RequestRow.hit))

/-- The hours with requests, each with how many there were and how many were hits. -/
def timelineOfLog (log : RequestLog) (firstHour : Str) (scope : RequestScope) : List (Str × Int × Int) :=
  let rows := (log.rowsIn scope).filter fun row => decide (firstHour ≤ row.hour)
  (sortedStr (rows.map RequestRow.hour).dedup).map fun hour => (hour, hitsOf (log.hourGroup hour scope))

end RequestLog

/-- The scope of a repository id in a query, where none asks for everything. -/
def RequestScope.asked (repoId : Option Str) : RequestScope := (repoId.map .repository).getD .all

namespace RequestLog
variable {log log₀ : RequestLog} {kind : CounterKind} {scope : RequestScope}

theorem topScope_eq (repoId : Option Str) : topScope repoId = (RequestScope.asked (repoId.filter (· ≠ []))).key := by
  unfold topScope
  cases repoId.filter (· ≠ []) <;> rfl

/-! ## Counters -/

theorem group_ne_nil {key : Str} : log.group kind scope key ≠ [] ↔ key ∈ (log.rowsIn scope).filterMap kind.column := by
  rw [List.mem_filterMap, ← List.length_pos_iff, List.length_pos_iff_exists_mem]
  simp only [group, rowsIn, List.mem_filter, Bool.and_eq_true, decide_eq_true_eq, and_assoc]

theorem byCount_injective : Function.Injective byCount := by
  rintro ⟨key, total⟩ ⟨key', total'⟩ h
  have hpair := Prod.mk.inj (toLex.injective h)
  exact Prod.ext hpair.2 (OrderDual.toDual.injective hpair.1)

/-- The counters of a kind in a scope are the groups of the log, so they are ranked alike. -/
theorem Exact.ranked_eq (h : log.Exact) (hkeeps : kind.Keeps scope) :
    ranked byCount ((log.counters.rows.filter fun row =>
      decide (row.key.1 = kind ∧ row.key.2.1 = scope.key ∧ 0 < row.total)).map fun row => (row.key.2.2, row.total)) =
    ranked byCount (((log.rowsIn scope).filterMap kind.column).dedup.map fun key =>
      (key, ((log.group kind scope key).length : Int))) := by
  have hdedup : ((((log.rowsIn scope).filterMap kind.column).dedup.map fun key =>
      (key, ((log.group kind scope key).length : Int))).map Prod.fst).Nodup := by
    rw [List.map_map]
    exact (List.map_id _).symm ▸ List.nodup_dedup _
  have hkeys : (((log.counters.rows.filter fun row =>
      decide (row.key.1 = kind ∧ row.key.2.1 = scope.key ∧ 0 < row.total)).map fun row => (row.key.2.2, row.total))).Nodup := by
    refine List.Nodup.map_on ?_ (List.filter_sublist.nodup (List.Nodup.of_map _ log.counters.keysNodup))
    intro row hrow row' hrow' heq
    simp only [List.mem_filter, decide_eq_true_eq] at hrow hrow'
    have hkey : row.key = row'.key :=
      Prod.ext (hrow.2.1.trans hrow'.2.1.symm) (Prod.ext (hrow.2.2.1.trans hrow'.2.2.1.symm) (Prod.mk.inj heq).1)
    exact List.inj_on_of_nodup_map log.counters.keysNodup hrow.1 hrow'.1 hkey
  refine ranked_eq_of_perm (hkeys.map byCount_injective) ((List.perm_ext_iff_of_nodup hkeys (List.Nodup.of_map _ hdedup)).2 ?_)
  rintro ⟨key, total⟩
  simp only [List.mem_map, List.mem_filter, decide_eq_true_eq, List.mem_dedup, Prod.mk.injEq]
  constructor
  · rintro ⟨⟨⟨kind', scopeKey, key'⟩, total', hits⟩, ⟨hrow, hkind, hscope, hpos⟩, rfl, rfl⟩
    dsimp only at hkind hscope hpos
    subst hkind hscope
    obtain ⟨-, hgroup, htotal, -⟩ := (h.counter kind' scope key' total' hits hpos).1 hrow
    exact ⟨key', group_ne_nil.1 hgroup, rfl, htotal.symm⟩
  · rintro ⟨key', hkey, rfl, rfl⟩
    have hgroup := group_ne_nil.2 hkey
    have hpos : (0 : Int) < (log.group kind scope key').length := Int.natCast_pos.2 (List.length_pos_iff.2 hgroup)
    exact ⟨_, ⟨(h.counter kind scope key' _ _ hpos).2 ⟨hkeeps, hgroup, rfl, rfl⟩, rfl, rfl, hpos⟩, rfl, rfl⟩

theorem Exact.top_eq (h : log.Exact) (hkind : kind ≠ .repo) (repoId : Option Str) (limit : Nat) :
    log.top kind repoId limit = log.topOfLog kind (.asked (repoId.filter (· ≠ []))) limit := by
  have hkeeps : kind.Keeps (.asked (repoId.filter (· ≠ []))) := by
    cases kind <;> first | exact absurd rfl hkind | trivial
  unfold top topOfLog
  rw [topScope_eq]
  exact congrArg (List.take limit) (h.ranked_eq hkeeps)

theorem answeredRepo_key (repoId : Option Str) : answeredRepo (RequestScope.ofRow repoId).key = repoId := by
  cases repoId <;> rfl

theorem group_repo : log.group .repo scope [] = log.rowsIn scope := by
  simp [group, rowsIn, CounterKind.column]

/-- A counted repository is one of the log. -/
theorem Exact.repo_row (h : log.Exact) {row : TallyRow CounterKey} (hrow : row ∈ log.counters.rows) (hkind : row.key.1 = .repo)
    (hpos : 0 < row.total) : ∃ repoId, row.key = (.repo, (RequestScope.ofRow repoId).key, []) ∧
      log.rowsIn (.ofRow repoId) ≠ [] ∧ (row.total, row.hits) = hitsOf (log.rowsIn (.ofRow repoId)) := by
  obtain ⟨kind, scope, key, hkey⟩ := h.counterScope row hrow hpos
  obtain ⟨rowKey, total, hits⟩ := row
  dsimp only at hkey hkind hpos ⊢
  subst hkey
  dsimp only at hkind
  subst hkind
  obtain ⟨hkeeps, hgroup, htotal, hhits⟩ := (h.counter .repo scope key total hits hpos).1 hrow
  obtain rfl : key = [] := by
    obtain ⟨row, -, hcolumn⟩ := List.mem_filterMap.1 (group_ne_nil.1 hgroup)
    exact (Option.some.inj hcolumn).symm
  rw [group_repo] at hgroup htotal hhits
  have hpair : (total, hits) = hitsOf (log.rowsIn scope) := Prod.ext htotal hhits
  cases scope with
  | unmatched => exact ⟨none, rfl, hgroup, hpair⟩
  | repository repoId => exact ⟨some repoId, rfl, hgroup, hpair⟩
  | all => exact absurd hkeeps id

theorem Exact.hitStats_eq (h : log.Exact) (repoId : Option Str) : log.getRequestHitStats.lookup repoId =
    if log.rowsIn (.ofRow repoId) = [] then none else some (hitsOf (log.rowsIn (.ofRow repoId))) := by
  have hkeys : ((((log.counters.rows.filter fun row => decide (row.key.1 = .repo ∧ 0 < row.total)).map
      fun row => (answeredRepo row.key.2.1, row.total, row.hits))).map Prod.fst).Nodup := by
    rw [List.map_map]
    refine List.Nodup.map_on ?_ (List.filter_sublist.nodup (List.Nodup.of_map _ log.counters.keysNodup))
    intro row hrow row' hrow' heq
    simp only [List.mem_filter, decide_eq_true_eq] at hrow hrow'
    obtain ⟨repoId, hkey, -⟩ := h.repo_row hrow.1 hrow.2.1 hrow.2.2
    obtain ⟨repoId', hkey', -⟩ := h.repo_row hrow'.1 hrow'.2.1 hrow'.2.2
    simp only [Function.comp_apply, hkey, hkey', answeredRepo_key] at heq
    exact List.inj_on_of_nodup_map log.counters.keysNodup hrow.1 hrow'.1 (by rw [hkey, hkey', heq])
  refine Option.ext fun answer => ?_
  unfold getRequestHitStats
  rw [Dict.lookup_ofPairs_iff hkeys]
  simp only [List.mem_map, List.mem_filter, decide_eq_true_eq, Prod.mk.injEq]
  constructor
  · rintro ⟨row, ⟨hrow, hkind, hpos⟩, hrepo, rfl⟩
    obtain ⟨repoId', hkey, hne, hpair⟩ := h.repo_row hrow hkind hpos
    rw [hkey, answeredRepo_key] at hrepo
    subst hrepo
    rw [if_neg hne, hpair]
  · intro hanswer
    by_cases hne : log.rowsIn (.ofRow repoId) = []
    · simp [hne] at hanswer
    · rw [if_neg hne] at hanswer
      obtain rfl := Option.some.inj hanswer
      have hkeeps : CounterKind.repo.Keeps (.ofRow repoId) := by cases repoId <;> trivial
      have hpos : (0 : Int) < (log.rowsIn (.ofRow repoId)).length := Int.natCast_pos.2 (List.length_pos_iff.2 hne)
      have hrow := (h.counter .repo (.ofRow repoId) [] _ _ hpos).2 ⟨hkeeps, group_repo ▸ hne, by rw [group_repo], rfl⟩
      exact ⟨_, ⟨hrow, rfl, hpos⟩, answeredRepo_key repoId, by rw [group_repo]; rfl⟩

/-! ## Hours -/

theorem sortedStr_dedup_congr {l l' : List Str} (h : ∀ s, s ∈ l ↔ s ∈ l') : sortedStr l.dedup = sortedStr l'.dedup := by
  have hperm : l.dedup.Perm l'.dedup :=
    (List.perm_ext_iff_of_nodup (List.nodup_dedup l) (List.nodup_dedup l')).2 fun s => by
      rw [List.mem_dedup, List.mem_dedup, h s]
  exact ((List.perm_insertionSort _ _).trans (hperm.trans (List.perm_insertionSort _ _).symm)).eq_of_pairwise
    (fun _ _ _ _ => le_antisymm) (pairwise_sortedStr _) (pairwise_sortedStr _)

theorem covers_asked (row : RequestRow) (repoId : Option Str) :
    repoId.all (fun r => decide (repoKey row.repoId = "r:".toList ++ r)) = (RequestScope.asked repoId).covers row := by
  cases repoId with
  | none => rfl
  | some r =>
    have hkey : repoKey row.repoId = (RequestScope.repository r).key ↔
        RequestScope.repository r ≠ .all ∧ (RequestScope.repository r).covers row = true := RequestScope.repoKey_eq_key
    have hscope : RequestScope.repository r ≠ .all := RequestScope.noConfusion
    rw [and_iff_right hscope] at hkey
    rw [Bool.eq_iff_iff]
    exact decide_eq_true_iff.trans hkey

/-- The hours that are counted in a scope, each summed over the repositories, are those of the log. -/
theorem InStep.timeline_eq (h : log.InStep) (firstHour : Str) {repoId : Option Str} (hrepo : repoId ≠ some []) :
    log.getRequestsTimeline firstHour repoId = log.timelineOfLog firstHour (.asked repoId) := by
  let asks : HourKey → Bool := fun k =>
    decide (firstHour ≤ k.1) && repoId.all fun r => decide (k.2 = "r:".toList ++ r)
  let rows := log.hourly.rows.filter fun row => asks row.key && decide (0 < row.total)
  have hasks : ∀ row : RequestRow, asks row.hourEntry.1 =
      (decide (firstHour ≤ row.hour) && (RequestScope.asked repoId).covers row) := by
    intro row
    rw [← covers_asked]
    rfl
  have hhours : ∀ hour, hour ∈ rows.map (fun row => row.key.1) ↔
      hour ∈ ((log.rowsIn (.asked repoId)).filter fun row => decide (firstHour ≤ row.hour)).map RequestRow.hour := by
    intro hour
    simp only [rows, rowsIn, List.mem_map, List.mem_filter, Bool.and_eq_true, decide_eq_true_eq]
    constructor
    · rintro ⟨row, ⟨hrow, hask, hpos⟩, rfl⟩
      obtain ⟨e, he, hkey⟩ := List.mem_map.1 ((h.hourly.mem_rows_iff hpos).1 hrow).1
      obtain ⟨request, hrequest, rfl⟩ := List.mem_map.1 he
      rw [← hkey, hasks, Bool.and_eq_true, decide_eq_true_eq] at hask
      exact ⟨request, ⟨⟨hrequest, hask.2⟩, hask.1⟩, congrArg Prod.fst hkey⟩
    · rintro ⟨request, ⟨⟨hrequest, hcovers⟩, hfirst⟩, rfl⟩
      have hmem : request.hourEntry.1 ∈ (log.events.rows.map RequestRow.hourEntry).map Prod.fst :=
        List.mem_map.2 ⟨_, List.mem_map.2 ⟨request, hrequest, rfl⟩, rfl⟩
      have hpos := Int.natCast_pos.2 (Tally.count_pos.2 hmem)
      let counted : TallyRow HourKey := ⟨request.hourEntry.1,
        Tally.count (log.events.rows.map RequestRow.hourEntry) request.hourEntry.1,
        Tally.weight (log.events.rows.map RequestRow.hourEntry) request.hourEntry.1⟩
      have hcounted : counted ∈ log.hourly.rows := (h.hourly.mem_rows_iff hpos).2 ⟨hmem, rfl, rfl⟩
      refine ⟨counted, ⟨hcounted, ?_, hpos⟩, rfl⟩
      rw [hasks, Bool.and_eq_true, decide_eq_true_eq]
      exact ⟨hfirst, hcovers⟩
  have hgroup : ∀ hour, firstHour ≤ hour →
      (Tally.sumOfInts ((rows.filter fun row => decide (row.key.1 = hour)).map TallyRow.total),
        Tally.sumOfInts ((rows.filter fun row => decide (row.key.1 = hour)).map TallyRow.hits)) =
      hitsOf (log.hourGroup hour (.asked repoId)) := by
    intro hour hfirst
    have hrows : (rows.filter fun row => decide (row.key.1 = hour)) =
        log.hourly.rows.filter fun row => (asks row.key && decide (row.key.1 = hour)) && decide (0 < row.total) := by
      rw [List.filter_filter]
      refine List.filter_congr fun row _ => ?_
      cases asks row.key <;> cases decide (row.key.1 = hour) <;> rfl
    have hentries : (log.events.rows.map RequestRow.hourEntry).filter (fun e => asks e.1 && decide (e.1.1 = hour)) =
        (log.hourGroup hour (.asked repoId)).map RequestRow.hourEntry := by
      rw [List.filter_map, hourGroup]
      refine congrArg _ (List.filter_congr fun row _ => ?_)
      rw [Function.comp_apply, hasks]
      by_cases hhour : row.hour = hour
      · simp [RequestRow.hourEntry, hhour, hfirst]
      · simp [RequestRow.hourEntry, hhour]
    obtain ⟨htotal, hhits⟩ := h.hourly.sum_rows fun k => asks k && decide (k.1 = hour)
    rw [hrows, htotal, hhits, hentries, List.length_map, List.map_map]
    rfl
  unfold getRequestsTimeline timelineOfLog
  rw [if_neg hrepo]
  dsimp only
  rw [← sortedStr_dedup_congr hhours]
  refine List.map_congr_left fun hour hmem => ?_
  have hfirst : firstHour ≤ hour := by
    rw [mem_sortedStr, List.mem_dedup, hhours] at hmem
    obtain ⟨row, hrow, rfl⟩ := List.mem_map.1 hmem
    exact of_decide_eq_true (List.mem_filter.1 hrow).2
  exact congrArg (Prod.mk hour) (hgroup hour hfirst)

/-! ## Runs -/

/-- **The statistics are those of the log** in every state with the triggers in place. -/
theorem statistics_run {ops : List RequestOp} (h₀ : log₀.Initial)
    (hrun : Run (fun log op log' => apply log op = some log') log₀ ops log) (htriggers : log.triggers = true) :
    (∀ repoId limit, log.getTopClientIps repoId limit = log.topOfLog .ip (.asked (repoId.filter (· ≠ []))) limit) ∧
    (∀ repoId limit, log.getTopRequestPaths repoId limit = log.topOfLog .path (.asked (repoId.filter (· ≠ []))) limit) ∧
    (∀ repoId, log.getRequestHitStats.lookup repoId =
      if log.rowsIn (.ofRow repoId) = [] then none else some (hitsOf (log.rowsIn (.ofRow repoId)))) ∧
    ∀ firstHour repoId, repoId ≠ some [] →
      log.getRequestsTimeline firstHour repoId = log.timelineOfLog firstHour (.asked repoId) := by
  have hinit : log₀.Consistent := ⟨h₀.ids, fun ht => Bool.noConfusion (h₀.untriggered.symm.trans ht)⟩
  have hlog : log.Consistent := hrun.invariant Consistent (fun _ _ _ h hop => h.apply hop) hinit
  have hstep := hlog.inStep htriggers
  have hexact := hstep.exact
  exact ⟨hexact.top_eq (by decide), hexact.top_eq (by decide), hexact.hitStats_eq,
    fun firstHour _ => hstep.timeline_eq firstHour⟩

/-- One request that hit the cache and matched no repository. -/
theorem statistics_run_hit :
    ∃ log, Run (fun log op log' => apply log op = some log') new [.initialise, .insert [hitRequest]] log ∧
    log.getTopClientIps none 10 = log.topOfLog .ip .all 10 ∧ log.getRequestHitStats.lookup none = some (1, 1) := by
  have hrun : Run (fun log op log' => apply log op = some log') new ([] ++ [.initialise] ++ [.insert [hitRequest]]) _ :=
    .snoc (.snoc (.nil new) rfl) rfl
  obtain ⟨hips, -, hstats, -⟩ := statistics_run new_initial hrun rfl
  exact ⟨_, hrun, hips none 10, (hstats none).trans (if_neg (List.cons_ne_nil _ _))⟩

end RequestLog
end RepoWatch
