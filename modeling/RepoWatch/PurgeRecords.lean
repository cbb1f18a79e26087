import RepoWatch.Lib.Run
import RepoWatch.Lib.Program
import RepoWatch.CacheStore
import RepoWatch.Replacements
import RepoWatch.NixStore
import RepoWatch.Repositories
/-!
# PurgeRecords — forgetting what was purged while the records are being written

Three passes purge cached files and then forget their warm records: the retention pass, the sweep of what an index no
longer lists, and the purge an operator asks for.  Each captures the records, awaits the purge, and deletes the rows that
still carry the revision it captured.  A pass is a program that may be answered anything; `Pass.Allowed` says what it
requests, and `purge_records_run` what the rows then go through while any number of passes run among the writers.
-/
namespace RepoWatch

open Lib

/-- What `get_warmed_records` returns: file name and revision by package key. -/
abbrev Records := Dict Str (Str × Str)

/-- The rows of one `SELECT … WHERE repo_id = ? AND package_key IN (…)`, with `warmed_at < ?` if there is a cutoff. -/
structure WarmedRows (repoId : Str) (keys : List Str) (cutoff : Option Str) where
  rows : List WarmedRow
  selected : ∀ r ∈ rows, r.repoId = repoId ∧ r.packageKey ∈ keys ∧ ∀ c, cutoff = some c → r.warmedAt < c
  keysNodup : (rows.map WarmedRow.packageKey).Nodup

inductive PurgeRequest where
  | expiry
  | read (repoId : Str) (keys : List Str) (cutoff : Option Str)
  | purge (repo : RepoConfig) (items : Dict Str Str)
  | remove (repoId : Str) (records : Records) (resolved : List Str)

/-- The clock answers the time before which a record has expired, and a purge an outcome by package key. -/
abbrev PurgeRequest.Answer : PurgeRequest → Type
  | .expiry => Str
  | .read repoId keys cutoff => WarmedRows repoId keys cutoff
  | .purge .. => Dict Str Str
  | .remove .. => Unit

abbrev PurgeProgram := Program PurgeRequest PurgeRequest.Answer
abbrev PurgeLog := List (Σ r : PurgeRequest, r.Answer)

namespace Database

def warmedRows (db : Database) (repoId : Str) (keys : List Str) (cutoff : Option Str) : WarmedRows repoId keys cutoff where
  rows := db.warmedPackages.rows.filter fun r =>
    decide (r.repoId = repoId ∧ r.packageKey ∈ keys) && cutoff.all fun c => decide (r.warmedAt < c)
  selected := by
    intro r hr
    obtain ⟨-, hr⟩ := List.mem_filter.1 hr
    simp only [Bool.and_eq_true, decide_eq_true_eq] at hr
    refine ⟨hr.1.1, hr.1.2, ?_⟩
    rintro c rfl
    simpa using hr.2
  keysNodup := by
    refine ((List.Nodup.of_map _ db.warmedPackages.keysNodup).filter _).map_on fun r hr r' hr' hkey => ?_
    obtain ⟨hm, hr⟩ := List.mem_filter.1 hr
    obtain ⟨hm', hr'⟩ := List.mem_filter.1 hr'
    simp only [Bool.and_eq_true, decide_eq_true_eq] at hr hr'
    have hpk : r.pk = r'.pk := Prod.ext (hr.1.1.trans hr'.1.1.symm) hkey
    have hget := Table.get_of_mem hm
    rw [hpk, Table.get_of_mem hm', Option.some.injEq] at hget
    exact hget.symm

/-- `CacheStore.remove_purged_records`. -/
def removePurgedRecords (db : Database) (repoId : Str) (records : Records) (resolved : List Str) : Database :=
  { db with
    warmedPackages := db.warmedPackages.filter fun r => !(decide (r.repoId = repoId ∧ r.packageKey ∈ resolved) &&
      (records.lookup r.packageKey).any fun record => decide (record.2 = r.revision)) }

end Database

/-! ## The passes -/

/-- `list(dict.fromkeys(keys))`. -/
def fromkeys (keys : List Str) : List Str := (Dict.ofPairs (keys.map fun k => (k, ()))).keys

/-- `keys[start:start + n]` for `start in range(0, len(keys), n)`. -/
def chunks {α : Type} (n : Nat) (l : List α) : List (List α) :=
  (List.range ((l.length + n - 1) / n)).map fun i => (l.drop (i * n)).take n

/-- `result.update((key, (filename, revision)) for …)`. -/
def Records.update (records : Records) (rows : List WarmedRow) : Records :=
  rows.foldl (fun records r => records.set r.packageKey (r.filename, r.revision)) records

def readChunks (repoId : Str) (cutoff : Option Str) (next : Records → PurgeProgram) :
    List (List Str) → Records → PurgeProgram
  | [], records => next records
  | keys :: rest, records => .request (.read repoId keys cutoff) fun answer : WarmedRows repoId keys cutoff =>
      readChunks repoId cutoff next rest (Records.update records answer.rows)

/-- `CacheStore.get_warmed_records`. -/
def getWarmedRecords (repoId : Str) (keys : List Str) (cutoff : Option Str) (next : Records → PurgeProgram) :
    PurgeProgram :=
  readChunks repoId cutoff next (chunks 500 (fromkeys keys)) Table.empty

/-- `{key: record[0] for key, record in records.items()}`. -/
def Records.filenames (records : Records) : Dict Str Str := .ofPairs (records.rows.map fun p => (p.1, p.2.1))

/-- `in ("purged", "not_cached", "retained_shared")`. -/
def isResolved (outcome : Str) : Bool := isConfirmed outcome || outcome == "retained_shared".toList

/-- `cleanup.resolved_purge_keys`. -/
def resolvedPurgeKeys (results : Dict Str Str) : List Str := (results.rows.filter fun p => isResolved p.2).map Prod.fst

/-- The package keys by repository. -/
def byRepo (items : List (Str × Str)) : List (Str × List Str) :=
  (fromkeys (items.map Prod.fst)).map fun repoId =>
    (repoId, fromkeys ((items.filter fun item => item.1 = repoId).map Prod.snd))

section Passes
variable (config : Config)

/-- `purge_items`, and what follows for the records it was given. -/
def purgeRecords (repo : RepoConfig) (records : Records) (next : List Str → PurgeProgram) : PurgeProgram :=
  .request (.purge repo (Records.filenames records)) fun results : Dict Str Str => next (resolvedPurgeKeys results)

/-- One round of `_purge_and_unwarm_stale`. -/
def expireRepo (group : Str × List Str) (rest : PurgeProgram) : PurgeProgram :=
  .request .expiry fun cutoff : Str => getWarmedRecords group.1 group.2 (some cutoff) fun records =>
    if records.rows = [] then rest
    else match config.repoById group.1 with
      | none => .request (.remove group.1 records records.keys) fun _ : Unit => rest
      | some repo => purgeRecords repo records fun resolved =>
          .request (.remove group.1 records resolved) fun _ : Unit => rest

/-- `cleanup._purge_and_unwarm_stale`. -/
def purgeAndUnwarmStale (stale : List (Str × Str)) : PurgeProgram := (byRepo stale).foldr (expireRepo config) .done

/-- One round of `purge_removed_from_index`. -/
def sweepRepo (group : Str × List Str) (rest : PurgeProgram) : PurgeProgram :=
  match config.repoById group.1 with
  | none => rest
  | some repo => getWarmedRecords group.1 group.2 none fun records =>
      if records.rows = [] then rest
      else purgeRecords repo records fun resolved =>
        .request (.remove group.1 records resolved) fun _ : Unit => rest

/-- `cleanup.purge_removed_from_index`. -/
def purgeRemovedFromIndex (items : List (Str × Str)) : PurgeProgram := (byRepo items).foldr (sweepRepo config) .done

/-- `web.packages.purge_selected_payload`. -/
def purgeSelectedPayload (repoId : Str) (keys : List Str) : PurgeProgram :=
  match config.repoById repoId with
  | none => .done
  | some repo =>
    if config.nginx.enablePurge = false ∨ keys = [] then .done
    else getWarmedRecords repoId keys none fun records =>
      if records.rows = [] then .done
      else purgeRecords repo records fun resolved =>
        if resolved = [] then .done else .request (.remove repoId records resolved) fun _ : Unit => .done

end Passes

/-- A pass under the configuration it was given. -/
inductive Pass where
  | retention (config : Config) (stale : List (Str × Str))
  | removed (config : Config) (items : List (Str × Str))
  | selected (config : Config) (repoId : Str) (keys : List Str)

namespace Pass

def config : Pass → Config
  | retention config _ => config
  | removed config _ => config
  | selected config _ _ => config

def program : Pass → PurgeProgram
  | retention config stale => purgeAndUnwarmStale config stale
  | removed config items => purgeRemovedFromIndex config items
  | selected config repoId keys => purgeSelectedPayload config repoId keys

/-- The packages a pass was given, by repository and key. -/
def items : Pass → List (Str × Str)
  | retention _ stale => stale
  | removed _ items => items
  | selected _ repoId keys => keys.map fun key => (repoId, key)

end Pass

/-! ## What a pass may request -/

/-- A row the pass has captured from a repository. -/
def Read (log : PurgeLog) (repoId : Str) (row : WarmedRow) : Prop :=
  ∃ keys cutoff, ∃ answer : WarmedRows repoId keys cutoff, ⟨.read repoId keys cutoff, answer⟩ ∈ log ∧ row ∈ answer.rows

/-- The pass has asked for the row of a key. -/
def Asked (log : PurgeLog) (repoId key : Str) : Prop :=
  ∃ keys cutoff, ∃ answer : WarmedRows repoId keys cutoff, ⟨.read repoId keys cutoff, answer⟩ ∈ log ∧ key ∈ keys

/-- The records are the rows captured from the repository. -/
def RecordsOf (log : PurgeLog) (repoId : Str) (records : Records) : Prop :=
  ∀ key v, records.lookup key = some v ↔
    ∃ row, Read log repoId row ∧ row.packageKey = key ∧ (row.filename, row.revision) = v

/-- Only captures of this repository. -/
def Captures (repoId : Str) (reads : PurgeLog) : Prop :=
  ∀ e ∈ reads, ∃ keys cutoff, ∃ answer : WarmedRows repoId keys cutoff, e = ⟨.read repoId keys cutoff, answer⟩

namespace Pass

/-- How a pass reads: the retention pass with the cutoff that it has just asked for, the others with none. -/
def Cutoff (log : PurgeLog) (repoId : Str) (cutoff : Option Str) : Pass → Prop
  | retention .. => ∃ before reads, ∃ c : Str, cutoff = some c ∧ log = before ++ ⟨.expiry, c⟩ :: reads ∧
      Captures repoId reads
  | _ => cutoff = none

def Allowed (pass : Pass) (log : PurgeLog) : PurgeRequest → Prop
  | .expiry => True
  | .read repoId keys cutoff => pass.Cutoff log repoId cutoff ∧ ∀ key ∈ keys, (repoId, key) ∈ pass.items
  | .purge repo items => pass.config.repoById repo.id = some repo ∧
      ∀ key filename, items.lookup key = some filename ↔
        ∃ row, Read log repo.id row ∧ row.packageKey = key ∧ row.filename = filename
  | .remove repoId records resolved => RecordsOf log repoId records ∧
      (pass.config.repoById repoId = none ∧ (∀ key ∈ records.keys, key ∈ resolved) ∨
        ∃ before repo items, ∃ results : Dict Str Str, log = before ++ [⟨.purge repo items, results⟩] ∧
          repo.id = repoId ∧ resolved = resolvedPurgeKeys results)

end Pass

/-- Nothing is left to forget: what was captured is purged and each purge is followed by the removal of what it resolved,
or, from a repository that is not configured, it is removed. -/
structure Settled (config : Config) (log : PurgeLog) : Prop where
  captured : ∀ repoId row repo, Read log repoId row → config.repoById repoId = some repo →
    ∃ items, ∃ results : Dict Str Str, ⟨.purge repo items, results⟩ ∈ log ∧
      items.lookup row.packageKey = some row.filename
  purged : ∀ before repo items, ∀ results : Dict Str Str, ∀ after,
    log = before ++ ⟨.purge repo items, results⟩ :: after → resolvedPurgeKeys results = [] ∨
      ∃ records rest, after = ⟨.remove repo.id records (resolvedPurgeKeys results), ()⟩ :: rest
  unconfigured : ∀ repoId row, Read log repoId row → config.repoById repoId = none →
    ∃ records resolved, ⟨.remove repoId records resolved, ()⟩ ∈ log ∧ row.packageKey ∈ resolved

/-- A pass that has ended: nothing is left to forget, and it has asked for all it was given of configured repositories. -/
structure Pass.Ended (pass : Pass) (log : PurgeLog) : Prop where
  settled : Settled pass.config log
  asked : pass.config.nginx.enablePurge = true → ∀ item ∈ pass.items, pass.config.repoById item.1 ≠ none →
    Asked log item.1 item.2

section Lists
variable {config : Config} {pass : Pass} {log log' : PurgeLog} {repoId : Str} {row : WarmedRow}

theorem mem_fromkeys {keys : List Str} {key : Str} : key ∈ fromkeys keys ↔ key ∈ keys := by
  unfold fromkeys Dict.keys
  rw [Table.mem_keys_iff, Dict.ofPairs, Table.get_upsertAll, Table.get_empty, Option.or_none, List.find?_isSome]
  simp

theorem nodup_fromkeys (keys : List Str) : (fromkeys keys).Nodup := Table.keysNodup _

theorem flatten_slices {α : Type} (n : Nat) (l : List α) : ∀ k : Nat,
    ((List.range k).map fun i => (l.drop (i * n)).take n).flatten = l.take (k * n)
  | 0 => by simp
  | k + 1 => by
    rw [List.range_succ, List.map_append, List.flatten_append, flatten_slices n l k, Nat.succ_mul, List.take_add]
    simp

/-- The chunks are the list, cut. -/
theorem flatten_chunks {α : Type} {n : Nat} (hn : 0 < n) (l : List α) : (chunks n l).flatten = l := by
  have hlen : l.length + n - 1 < (l.length + n - 1) / n * n + n := Nat.lt_div_mul_add hn
  unfold chunks
  rw [flatten_slices, List.take_of_length_le (by omega)]

/-- A captured row is what its key is looked up to. -/
theorem lookup_update {key : Str} {v : Str × Str} : ∀ (rows : List WarmedRow) (records : Records),
    (rows.map WarmedRow.packageKey).Nodup → (∀ r ∈ rows, records.lookup r.packageKey = none) →
    ((Records.update records rows).lookup key = some v ↔
      records.lookup key = some v ∨ ∃ r ∈ rows, r.packageKey = key ∧ (r.filename, r.revision) = v)
  | [], records, _, _ => by simp [Records.update]
  | r :: rows, records, hnodup, hnew => by
    rw [List.map_cons, List.nodup_cons] at hnodup
    have hfresh : ∀ r' ∈ rows, (records.set r.packageKey (r.filename, r.revision)).lookup r'.packageKey = none := by
      intro r' hr'
      have hne : r'.packageKey ≠ r.packageKey := fun e => hnodup.1 (e ▸ List.mem_map_of_mem hr')
      rw [Dict.lookup_set, if_neg hne]
      exact hnew r' (List.mem_cons_of_mem _ hr')
    have hrest := @lookup_update key v rows (records.set r.packageKey (r.filename, r.revision)) hnodup.2 hfresh
    rw [Records.update, List.foldl_cons]
    refine hrest.trans ?_
    rw [Dict.lookup_set]
    simp only [List.exists_mem_cons_iff]
    by_cases hkey : key = r.packageKey
    · subst hkey
      simp [hnew r List.mem_cons_self]
    · simp [hkey, Ne.symm hkey]

theorem lookup_filenames {records : Records} {key filename : Str} :
    (Records.filenames records).lookup key = some filename ↔ ∃ v, records.lookup key = some v ∧ v.1 = filename := by
  have hkeys : ((records.rows.map fun p => (p.1, p.2.1)).map Prod.fst).Nodup := by
    rw [List.map_map]
    exact records.keysNodup
  rw [Records.filenames, Dict.lookup_ofPairs_iff hkeys, List.mem_map]
  simp only [Dict.lookup_eq_some_iff, Prod.mk.injEq, Prod.exists]
  constructor
  · rintro ⟨k, f, rev, hmem, rfl, rfl⟩
    exact ⟨f, rev, hmem, rfl⟩
  · rintro ⟨f, rev, hmem, rfl⟩
    exact ⟨key, f, rev, hmem, rfl, rfl⟩

theorem mem_resolvedPurgeKeys {results : Dict Str Str} {key : Str} :
    key ∈ resolvedPurgeKeys results ↔ ∃ outcome, results.lookup key = some outcome ∧ isResolved outcome = true := by
  unfold resolvedPurgeKeys
  simp only [List.mem_map, List.mem_filter, Dict.lookup_eq_some_iff, Prod.exists]
  constructor
  · rintro ⟨k, outcome, ⟨hmem, hres⟩, rfl⟩
    exact ⟨outcome, hmem, hres⟩
  · rintro ⟨outcome, hmem, hres⟩
    exact ⟨key, outcome, ⟨hmem, hres⟩, rfl⟩

/-! ### What was read -/

theorem read_append : Read (log ++ log') repoId row ↔ Read log repoId row ∨ Read log' repoId row := by
  unfold Read
  simp only [List.mem_append, or_and_right, exists_or]

theorem read_answer {keys : List Str} {cutoff : Option Str} {answer : WarmedRows repoId keys cutoff} {repoId' : Str} :
    Read [⟨.read repoId keys cutoff, answer⟩] repoId' row ↔ repoId' = repoId ∧ row ∈ answer.rows := by
  constructor
  · rintro ⟨keys', cutoff', answer', hmem, hrow⟩
    cases List.mem_singleton.1 hmem
    exact ⟨rfl, hrow⟩
  · rintro ⟨rfl, hrow⟩
    exact ⟨keys, cutoff, answer, List.mem_singleton_self _, hrow⟩

theorem Read.repoId_eq (h : Read log repoId row) : row.repoId = repoId := by
  obtain ⟨keys, cutoff, answer, -, hrow⟩ := h
  exact (answer.selected row hrow).1

end Lists

/-! ## Every pass keeps to it -/

section Passes
variable {config : Config} {pass : Pass} {log reads : PurgeLog} {repoId : Str} {records : Records}

theorem Captures.repoId_eq {r : Str} {row : WarmedRow} (h : Captures repoId reads) (hread : Read reads r row) :
    r = repoId := by
  obtain ⟨keys, cutoff, answer, hmem, -⟩ := hread
  obtain ⟨keys', cutoff', answer', he⟩ := h _ hmem
  cases he
  rfl

theorem Settled.append {log' : PurgeLog} (h : Settled config log) (h' : Settled config log') :
    Settled config (log ++ log') where
  captured := by
    intro r row repo hread hrepo
    rcases read_append.1 hread with hread | hread
    · obtain ⟨items, results, hmem, hitem⟩ := h.captured r row repo hread hrepo
      exact ⟨items, results, List.mem_append_left _ hmem, hitem⟩
    · obtain ⟨items, results, hmem, hitem⟩ := h'.captured r row repo hread hrepo
      exact ⟨items, results, List.mem_append_right _ hmem, hitem⟩
  purged := by
    intro before repo items results after heq
    obtain ⟨mid, -, h₂⟩ | ⟨mid, h₁, h₂⟩ := List.append_eq_append_iff.1 heq
    · exact h'.purged mid repo items results after h₂
    · rcases mid with _ | ⟨e, mid⟩
      · exact h'.purged [] repo items results after h₂.symm
      · obtain ⟨rfl, rfl⟩ := List.cons.inj h₂
        refine (h.purged before repo items results mid h₁).imp_right ?_
        rintro ⟨records, rest, rfl⟩
        exact ⟨records, rest ++ log', rfl⟩
  unconfigured := by
    intro r row hread hnone
    rcases read_append.1 hread with hread | hread
    · obtain ⟨records, resolved, hmem, hkey⟩ := h.unconfigured r row hread hnone
      exact ⟨records, resolved, List.mem_append_left _ hmem, hkey⟩
    · obtain ⟨records, resolved, hmem, hkey⟩ := h'.unconfigured r row hread hnone
      exact ⟨records, resolved, List.mem_append_right _ hmem, hkey⟩

/-- A log in which nothing was purged and no row was captured. -/
theorem settled_of_unread (hpurge : ∀ repo items, ∀ results : Dict Str Str, ⟨.purge repo items, results⟩ ∉ log)
    (hread : ∀ r row, ¬ Read log r row) : Settled config log where
  captured := fun r row _ h => absurd h (hread r row)
  purged := by
    rintro before repo items results after rfl
    exact absurd (List.mem_append_right _ List.mem_cons_self) (hpurge repo items results)
  unconfigured := fun r row h => absurd h (hread r row)

theorem not_read_nil (repoId : Str) (row : WarmedRow) : ¬ Read [] repoId row := by
  rintro ⟨keys, c, answer, hmem, -⟩
  exact absurd hmem List.not_mem_nil

theorem settled_nil : Settled config [] :=
  settled_of_unread (fun _ _ _ h => absurd h List.not_mem_nil) not_read_nil

theorem not_read_expiry (cutoff repoId : Str) (row : WarmedRow) : ¬ Read [⟨.expiry, cutoff⟩] repoId row := by
  rintro ⟨keys, c, answer, hmem, -⟩
  cases List.mem_singleton.1 hmem

theorem settled_expiry (cutoff : Str) : Settled config [⟨.expiry, cutoff⟩] := by
  refine settled_of_unread (fun repo items results h => ?_) (not_read_expiry cutoff)
  cases List.mem_singleton.1 h

theorem Captures.not_purge (h : Captures repoId reads) (repo : RepoConfig) (items results : Dict Str Str) :
    (⟨.purge repo items, results⟩ : Σ r : PurgeRequest, r.Answer) ∉ reads := by
  intro hmem
  obtain ⟨keys, cutoff, answer, he⟩ := h _ hmem
  cases he

theorem Captures.settled (h : Captures repoId reads) (hread : ∀ row, ¬ Read reads repoId row) :
    Settled config reads := by
  refine settled_of_unread h.not_purge fun r row hr => ?_
  obtain rfl := h.repoId_eq hr
  exact hread row hr

/-- Captures followed by the removal of all of them. -/
theorem Captures.settled_removed (h : Captures repoId reads) (hrepo : config.repoById repoId = none)
    (hkeys : ∀ row, Read reads repoId row → row.packageKey ∈ records.keys) :
    Settled config (reads ++ [⟨.remove repoId records records.keys, ()⟩]) := by
  have hread : ∀ r row, Read (reads ++ [⟨.remove repoId records records.keys, ()⟩]) r row → Read reads r row := by
    intro r row hr
    rcases read_append.1 hr with hr | ⟨keys, cutoff, answer, hmem, -⟩
    · exact hr
    · cases List.mem_singleton.1 hmem
  constructor
  case captured =>
    intro r row repo hr hsome
    obtain rfl := h.repoId_eq (hread r row hr)
    rw [hrepo] at hsome
    cases hsome
  case purged =>
    intro before repo items results after heq
    have hmem : (⟨.purge repo items, results⟩ : Σ r : PurgeRequest, r.Answer) ∈
        reads ++ [⟨.remove repoId records records.keys, ()⟩] := by simp [heq]
    rcases List.mem_append.1 hmem with hmem | hmem
    · exact absurd hmem (h.not_purge repo items results)
    · cases List.mem_singleton.1 hmem
  case unconfigured =>
    intro r row hr _
    obtain rfl := h.repoId_eq (hread r row hr)
    exact ⟨records, records.keys, by simp, hkeys row (hread _ row hr)⟩

/-- Captures followed by their purge and by the removal of what it resolved. -/
theorem Captures.settled_purge {repo : RepoConfig} {items results : Dict Str Str} {tail : PurgeLog}
    (h : Captures repo.id reads) (hrepo : config.repoById repo.id = some repo)
    (hitems : ∀ row, Read reads repo.id row → items.lookup row.packageKey = some row.filename)
    (htail : tail = [] ∧ resolvedPurgeKeys results = [] ∨
      ∃ records, tail = [⟨.remove repo.id records (resolvedPurgeKeys results), ()⟩]) :
    Settled config (reads ++ ⟨.purge repo items, results⟩ :: tail) := by
  have hread : ∀ r row, Read (reads ++ ⟨.purge repo items, results⟩ :: tail) r row → Read reads r row := by
    intro r row hr
    rcases read_append.1 hr with hr | ⟨keys, cutoff, answer, hmem, -⟩
    · exact hr
    · rcases List.mem_cons.1 hmem with he | hmem
      · cases he
      · rcases htail with ⟨rfl, -⟩ | ⟨records, rfl⟩
        · exact absurd hmem List.not_mem_nil
        · cases List.mem_singleton.1 hmem
  constructor
  case captured =>
    intro r row repo' hr hsome
    obtain rfl := h.repoId_eq (hread r row hr)
    rw [hrepo, Option.some.injEq] at hsome
    subst hsome
    exact ⟨items, results, List.mem_append_right _ List.mem_cons_self, hitems row (hread _ row hr)⟩
  case purged =>
    intro before repo' items' results' after heq
    obtain ⟨mid, rfl, hmid⟩ | ⟨mid, hreads, hmid⟩ := List.append_eq_append_iff.1 heq
    · rcases mid with _ | ⟨e, mid⟩
      · cases hmid
        exact htail.imp (fun h => h.2) fun ⟨records, ht⟩ => ⟨records, [], ht⟩
      · have hmem : (⟨.purge repo' items', results'⟩ : Σ r : PurgeRequest, r.Answer) ∈ tail := by
          rw [(List.cons.inj hmid).2]
          simp
        rcases htail with ⟨rfl, -⟩ | ⟨records, rfl⟩
        · exact absurd hmem List.not_mem_nil
        · cases List.mem_singleton.1 hmem
    · rcases mid with _ | ⟨e, mid⟩
      · cases hmid
        exact htail.imp (fun h => h.2) fun ⟨records, ht⟩ => ⟨records, [], ht⟩
      · obtain ⟨rfl, -⟩ := List.cons.inj hmid
        exact absurd (by rw [hreads]; simp) (h.not_purge repo' items' results')
  case unconfigured =>
    intro r row hr hnone
    obtain rfl := h.repoId_eq (hread r row hr)
    rw [hrepo] at hnone
    cases hnone

theorem Captures.append (h : Captures repoId log) (h' : Captures repoId reads) : Captures repoId (log ++ reads) := by
  intro e he
  rcases List.mem_append.1 he with he | he
  · exact h e he
  · exact h' e he

theorem Pass.Cutoff.append {cutoff : Option Str} (h : pass.Cutoff log repoId cutoff) (hreads : Captures repoId reads) :
    pass.Cutoff (log ++ reads) repoId cutoff := by
  cases pass with
  | retention config stale =>
    obtain ⟨before, since, c, rfl, rfl, hsince⟩ := h
    exact ⟨before, since ++ reads, c, rfl, by simp, hsince.append hreads⟩
  | removed config items => exact h
  | selected config repoId keys => exact h

/-- What `readChunks` hands on: its captures, and the records made of them. -/
theorem readChunks_meets {Q : PurgeLog → Prop} {cutoff : Option Str} {next : Records → PurgeProgram} :
    ∀ (chunks : List (List Str)) (log : PurgeLog) (records : Records), pass.Cutoff log repoId cutoff →
      (∀ key ∈ chunks.flatten, (repoId, key) ∈ pass.items) → RecordsOf log repoId records → chunks.flatten.Nodup →
      (∀ key ∈ chunks.flatten, records.lookup key = none) →
      (∀ reads records', Captures repoId reads → RecordsOf (log ++ reads) repoId records' →
        (∀ key ∈ chunks.flatten, Asked reads repoId key) →
        Program.Meets pass.Allowed Q (log ++ reads) (next records')) →
      Program.Meets pass.Allowed Q log (readChunks repoId cutoff next chunks records)
  | [], log, records, _, _, hrecords, _, _, hnext => by
    have hnil := hnext [] records (fun e he => absurd he List.not_mem_nil) (by rwa [List.append_nil])
      fun key hkey => absurd hkey List.not_mem_nil
    rwa [List.append_nil] at hnil
  | keys :: chunks, log, records, hcutoff, hitems, hrecords, hnodup, hnew, hnext => by
    rw [List.flatten_cons] at hitems hnodup hnew hnext
    obtain ⟨-, hrest, hdisjoint⟩ := List.nodup_append.1 hnodup
    refine ⟨⟨hcutoff, fun key hkey => hitems key (List.mem_append_left _ hkey)⟩, fun answer => ?_⟩
    have hfresh : ∀ r ∈ answer.rows, records.lookup r.packageKey = none := fun r hr =>
      hnew _ (List.mem_append_left _ (answer.selected r hr).2.1)
    have hcapture : Captures repoId [⟨.read repoId keys cutoff, answer⟩] := by
      intro e he
      cases List.mem_singleton.1 he
      exact ⟨keys, cutoff, answer, rfl⟩
    refine readChunks_meets chunks _ _ (hcutoff.append hcapture)
      (fun key hkey => hitems key (List.mem_append_right _ hkey)) ?_ hrest ?_ fun reads records' hreads hrecords' hasked => ?_
    · intro key v
      rw [lookup_update answer.rows records answer.keysNodup hfresh, hrecords key v]
      simp only [read_append, read_answer, true_and, or_and_right, exists_or]
    · intro key hkey
      cases hlookup : (Records.update records answer.rows).lookup key with
      | none => rfl
      | some v =>
        rcases (lookup_update answer.rows records answer.keysNodup hfresh).1 hlookup with hold | ⟨r, hr, rfl, -⟩
        · rw [hnew key (List.mem_append_right _ hkey)] at hold
          cases hold
        · exact absurd rfl (hdisjoint _ (answer.selected r hr).2.1 _ hkey)
    · rw [List.append_assoc] at hrecords' ⊢
      refine hnext _ records' (hcapture.append hreads) hrecords' fun key hkey => ?_
      rcases List.mem_append.1 hkey with hkey | hkey
      · exact ⟨keys, cutoff, answer, List.mem_cons_self, hkey⟩
      · obtain ⟨keys', cutoff', answer', hmem, hkey⟩ := hasked key hkey
        exact ⟨keys', cutoff', answer', List.mem_cons_of_mem _ hmem, hkey⟩

/-- **Capturing**: from a repository that the pass has not read, the records are what was captured, and nothing else was
done. -/
theorem getWarmedRecords_meets {Q : PurgeLog → Prop} {cutoff : Option Str} {next : Records → PurgeProgram}
    {keys : List Str} (hcutoff : pass.Cutoff log repoId cutoff) (hitems : ∀ key ∈ keys, (repoId, key) ∈ pass.items)
    (hunread : ∀ row, ¬ Read log repoId row)
    (hnext : ∀ reads records, Captures repoId reads → RecordsOf (log ++ reads) repoId records →
      (∀ key ∈ keys, Asked reads repoId key) → Program.Meets pass.Allowed Q (log ++ reads) (next records)) :
    Program.Meets pass.Allowed Q log (getWarmedRecords repoId keys cutoff next) := by
  have hflatten : (chunks 500 (fromkeys keys)).flatten = fromkeys keys := flatten_chunks (by decide) _
  refine readChunks_meets _ log _ hcutoff ?_ ?_ ?_ (fun key _ => rfl) fun reads records hreads hrecords hasked => ?_
  · rw [hflatten]
    exact fun key hkey => hitems key (mem_fromkeys.1 hkey)
  · refine fun key v => ⟨fun h => (Option.some_ne_none v).elim h.symm, ?_⟩
    rintro ⟨row, hread, -⟩
    exact absurd hread (hunread row)
  · rw [hflatten]
    exact nodup_fromkeys keys
  · rw [hflatten] at hasked
    exact hnext reads records hreads hrecords fun key hkey => hasked key (mem_fromkeys.2 hkey)

theorem RecordsOf.append {log' : PurgeLog} (h : RecordsOf log repoId records) (hread : ∀ row, ¬ Read log' repoId row) :
    RecordsOf (log ++ log') repoId records := by
  intro key v
  rw [h key v]
  simp only [read_append, hread, or_false]

theorem RecordsOf.mem_keys {row : WarmedRow} (h : RecordsOf log repoId records) (hread : Read log repoId row) :
    row.packageKey ∈ records.keys := by
  by_contra hkey
  have hsome := (h row.packageKey _).2 ⟨row, hread, rfl, rfl⟩
  rw [Dict.lookup_eq_none_iff.2 hkey] at hsome
  cases hsome

/-- No records: nothing was captured. -/
theorem RecordsOf.unread (h : RecordsOf log repoId records) (hnil : records.rows = []) (row : WarmedRow) :
    ¬ Read log repoId row := by
  intro hread
  have hkey := h.mem_keys hread
  rw [Dict.keys, hnil] at hkey
  exact absurd hkey List.not_mem_nil

theorem purgeRecords_meets {Q : PurgeLog → Prop} {repo : RepoConfig} {next : List Str → PurgeProgram}
    (hrepo : pass.config.repoById repo.id = some repo) (hrecords : RecordsOf log repo.id records)
    (hnext : ∀ results : Dict Str Str, Program.Meets pass.Allowed Q
      (log ++ [⟨.purge repo (Records.filenames records), results⟩]) (next (resolvedPurgeKeys results))) :
    Program.Meets pass.Allowed Q log (purgeRecords repo records next) := by
  refine ⟨⟨hrepo, fun key filename => ?_⟩, hnext⟩
  rw [lookup_filenames]
  constructor
  · rintro ⟨v, hv, rfl⟩
    obtain ⟨row, hread, hkey, rfl⟩ := (hrecords key v).1 hv
    exact ⟨row, hread, hkey, rfl⟩
  · rintro ⟨row, hread, hkey, rfl⟩
    exact ⟨_, (hrecords key _).2 ⟨row, hread, hkey, rfl⟩, rfl⟩

theorem RecordsOf.filenames_eq {row : WarmedRow} (h : RecordsOf log repoId records) (hread : Read log repoId row) :
    (Records.filenames records).lookup row.packageKey = some row.filename :=
  lookup_filenames.2 ⟨_, (h row.packageKey _).2 ⟨row, hread, rfl, rfl⟩, rfl⟩

theorem not_read_purge {repo : RepoConfig} {items results : Dict Str Str} (row : WarmedRow) :
    ¬ Read [⟨.purge repo items, results⟩] repoId row := by
  rintro ⟨keys, cutoff, answer, hmem, -⟩
  cases List.mem_singleton.1 hmem

/-- Purging what was captured and forgetting what was resolved. -/
theorem purge_remove_meets {Q : PurgeLog → Prop} {repo : RepoConfig} {rest : PurgeProgram}
    (hrepo : pass.config.repoById repo.id = some repo) (hreads : Captures repo.id reads)
    (hrecords : RecordsOf (log ++ reads) repo.id records)
    (hrest : ∀ tail, Settled pass.config (reads ++ tail) → (∀ r row, ¬ Read tail r row) →
      Program.Meets pass.Allowed Q (log ++ (reads ++ tail)) rest) :
    Program.Meets pass.Allowed Q (log ++ reads) (purgeRecords repo records fun resolved =>
      .request (.remove repo.id records resolved) fun _ : Unit => rest) := by
  refine purgeRecords_meets hrepo hrecords fun results =>
    ⟨⟨hrecords.append not_read_purge, .inr ⟨_, _, _, results, rfl, rfl, rfl⟩⟩, fun _ => ?_⟩
  rw [List.append_assoc, List.append_assoc]
  refine hrest _ (hreads.settled_purge hrepo (fun row hread => ?_) (.inr ⟨records, rfl⟩)) ?_
  · exact hrecords.filenames_eq (read_append.2 (.inr hread))
  · rintro r row ⟨keys, cutoff, answer, hmem, -⟩
    rcases List.mem_cons.1 hmem with he | he
    · cases he
    · cases List.mem_singleton.1 he

/-- What a round hands on to the rounds after it: nothing is left to forget, it has read its own repository only, and
asked for all of its keys unless the repository is not configured. -/
def HandsOn (pass : Pass) (Q : PurgeLog → Prop) (group : Str × List Str) (log : PurgeLog) (rest : PurgeProgram) : Prop :=
  ∀ log', Settled pass.config log' → (∀ r row, Read log' r row → r = group.1) →
    (pass.config.repoById group.1 ≠ none → ∀ key ∈ group.2, Asked log' group.1 key) →
    Program.Meets pass.Allowed Q (log ++ log') rest

theorem Asked.append_left {log' : PurgeLog} {key : Str} (h : Asked log repoId key) : Asked (log ++ log') repoId key := by
  obtain ⟨keys, cutoff, answer, hmem, hkey⟩ := h
  exact ⟨keys, cutoff, answer, List.mem_append_left _ hmem, hkey⟩

theorem Asked.append_right {log' : PurgeLog} {key : Str} (h : Asked log repoId key) : Asked (log' ++ log) repoId key := by
  obtain ⟨keys, cutoff, answer, hmem, hkey⟩ := h
  exact ⟨keys, cutoff, answer, List.mem_append_right _ hmem, hkey⟩

/-- The round that has captured its keys goes on with what was captured. -/
theorem HandsOn.captures {Q : PurgeLog → Prop} {group : Str × List Str} {rest : PurgeProgram} {tail : PurgeLog}
    (h : HandsOn pass Q group log rest) (hreads : Captures group.1 reads) (hsettled : Settled pass.config (reads ++ tail))
    (htail : ∀ r row, ¬ Read tail r row) (hasked : ∀ key ∈ group.2, Asked reads group.1 key) :
    Program.Meets pass.Allowed Q (log ++ (reads ++ tail)) rest := by
  refine h _ hsettled (fun r row hread => ?_) fun _ key hkey => (hasked key hkey).append_left
  exact hreads.repoId_eq ((read_append.1 hread).resolve_right (htail r row))

theorem expireRepo_meets {Q : PurgeLog → Prop} {group : Str × List Str} {rest : PurgeProgram} {stale : List (Str × Str)}
    (hunread : ∀ row, ¬ Read log group.1 row) (hitems : ∀ key ∈ group.2, (group.1, key) ∈ stale)
    (hrest : HandsOn (.retention config stale) Q group log rest) :
    Program.Meets (Pass.retention config stale).Allowed Q log (expireRepo config group rest) := by
  refine ⟨trivial, fun (cutoff : Str) => ?_⟩
  have hnone := not_read_expiry cutoff
  have hrest' : HandsOn (.retention config stale) Q group (log ++ [⟨.expiry, cutoff⟩]) rest := by
    intro log' hlog' hown hasked
    rw [List.append_assoc]
    refine hrest _ ((settled_expiry cutoff).append hlog') (fun r row hread => ?_) fun hsome key hkey =>
      (hasked hsome key hkey).append_right
    exact hown r row ((read_append.1 hread).resolve_left (hnone r row))
  have hunread' : ∀ row, ¬ Read (log ++ [⟨.expiry, cutoff⟩]) group.1 row := fun row hread =>
    (read_append.1 hread).elim (hunread row) (hnone _ row)
  have hcutoff : (Pass.retention config stale).Cutoff (log ++ [⟨.expiry, cutoff⟩]) group.1 (some cutoff) :=
    ⟨log, [], cutoff, rfl, rfl, fun e he => absurd he List.not_mem_nil⟩
  refine getWarmedRecords_meets hcutoff hitems hunread' fun reads records hreads hrecords hasked => ?_
  by_cases hempty : records.rows = []
  · rw [if_pos hempty]
    have hsettled : Settled config reads := hreads.settled fun row hread =>
      hrecords.unread hempty row (read_append.2 (.inr hread))
    have hdone := hrest'.captures hreads (hsettled.append settled_nil) not_read_nil hasked
    rwa [List.append_nil] at hdone
  · rw [if_neg hempty]
    cases hrepo : config.repoById group.1 with
    | none =>
      refine ⟨⟨hrecords, .inl ⟨hrepo, fun key hkey => hkey⟩⟩, fun _ => ?_⟩
      rw [List.append_assoc]
      refine hrest'.captures hreads (hreads.settled_removed hrepo fun row hread => ?_) ?_ hasked
      · exact hrecords.mem_keys (read_append.2 (.inr hread))
      · rintro r row ⟨keys, c, answer, hmem, -⟩
        cases List.mem_singleton.1 hmem
    | some repo =>
      obtain ⟨-, hid⟩ := Config.repoById_eq_some hrepo
      have hconfigured : config.repoById repo.id = some repo := by rw [hid, hrepo]
      have hnext := fun tail (hsettled : Settled config (reads ++ tail)) htail =>
        hrest'.captures hreads hsettled htail hasked
      rw [← hid] at hrecords hreads ⊢
      exact purge_remove_meets hconfigured hreads hrecords hnext

theorem sweepRepo_meets {Q : PurgeLog → Prop} {group : Str × List Str} {rest : PurgeProgram} {items : List (Str × Str)}
    (hunread : ∀ row, ¬ Read log group.1 row) (hitems : ∀ key ∈ group.2, (group.1, key) ∈ items)
    (hrest : HandsOn (.removed config items) Q group log rest) :
    Program.Meets (Pass.removed config items).Allowed Q log (sweepRepo config group rest) := by
  unfold sweepRepo
  cases hrepo : config.repoById group.1 with
  | none =>
    have hdone := hrest [] settled_nil (fun r row hread => absurd hread (not_read_nil r row)) fun hsome =>
      absurd hrepo hsome
    rwa [List.append_nil] at hdone
  | some repo =>
    obtain ⟨-, hid⟩ := Config.repoById_eq_some hrepo
    have hconfigured : config.repoById repo.id = some repo := by rw [hid, hrepo]
    refine getWarmedRecords_meets rfl hitems hunread fun reads records hreads hrecords hasked => ?_
    by_cases hempty : records.rows = []
    · rw [if_pos hempty]
      have hsettled : Settled config reads := hreads.settled fun row hread =>
        hrecords.unread hempty row (read_append.2 (.inr hread))
      have hdone := hrest.captures hreads (hsettled.append settled_nil) not_read_nil hasked
      rwa [List.append_nil] at hdone
    · rw [if_neg hempty]
      have hnext := fun tail (hsettled : Settled config (reads ++ tail)) htail =>
        hrest.captures hreads hsettled htail hasked
      rw [← hid] at hrecords hreads ⊢
      exact purge_remove_meets hconfigured hreads hrecords hnext

theorem purgeSelectedPayload_meets {keys : List Str} :
    Program.Meets (Pass.selected config repoId keys).Allowed (Pass.selected config repoId keys).Ended []
      (purgeSelectedPayload config repoId keys) := by
  unfold purgeSelectedPayload
  cases hrepo : config.repoById repoId with
  | none =>
    refine ⟨settled_nil, fun _ item hitem hsome => absurd ?_ hsome⟩
    obtain ⟨key, -, rfl⟩ := List.mem_map.1 hitem
    exact hrepo
  | some repo =>
    obtain ⟨-, rfl⟩ := Config.repoById_eq_some hrepo
    dsimp only
    split
    · rename_i hnothing
      refine ⟨settled_nil, fun hpurge item hitem _ => ?_⟩
      obtain ⟨key, hkey, rfl⟩ := List.mem_map.1 hitem
      rcases hnothing with hoff | rfl
      · exact absurd (hoff.symm.trans hpurge) Bool.false_ne_true
      · exact absurd hkey List.not_mem_nil
    have hstart : ∀ row, ¬ Read [] repo.id row := not_read_nil repo.id
    refine getWarmedRecords_meets rfl (fun key hkey => List.mem_map_of_mem hkey) hstart
      fun reads records hreads hrecords hasked => ?_
    have hended : ∀ tail, Settled config (reads ++ tail) → (Pass.selected config repo.id keys).Ended (reads ++ tail) := by
      refine fun tail hsettled => ⟨hsettled, fun _ item hitem _ => ?_⟩
      obtain ⟨key, hkey, rfl⟩ := List.mem_map.1 hitem
      exact (hasked key hkey).append_left
    by_cases hempty : records.rows = []
    · rw [if_pos hempty]
      have hdone := hended [] (by rw [List.append_nil]; exact hreads.settled (hrecords.unread hempty))
      rwa [List.append_nil] at hdone
    rw [if_neg hempty]
    refine purgeRecords_meets hrepo hrecords fun results => ?_
    have hitems : ∀ row, Read reads repo.id row →
        (Records.filenames records).lookup row.packageKey = some row.filename := fun row => hrecords.filenames_eq
    by_cases hresolved : resolvedPurgeKeys results = []
    · rw [if_pos hresolved]
      exact hended _ (hreads.settled_purge hrepo hitems (.inl ⟨rfl, hresolved⟩))
    · rw [if_neg hresolved]
      refine ⟨⟨hrecords.append not_read_purge, .inr ⟨reads, _, _, results, rfl, rfl, rfl⟩⟩, fun _ => ?_⟩
      rw [List.append_assoc]
      exact hended _ (hreads.settled_purge hrepo hitems (.inr ⟨records, rfl⟩))

theorem byRepo_ids (items : List (Str × Str)) : ((byRepo items).map Prod.fst) = fromkeys (items.map Prod.fst) := by
  simp [byRepo, Function.comp_def]

theorem mem_byRepo {items : List (Str × Str)} {group : Str × List Str} (h : group ∈ byRepo items) {key : Str} :
    key ∈ group.2 ↔ (group.1, key) ∈ items := by
  obtain ⟨id, -, rfl⟩ := List.mem_map.1 h
  rw [mem_fromkeys, List.mem_map]
  simp only [List.mem_filter, decide_eq_true_eq]
  constructor
  · rintro ⟨item, ⟨hitem, rfl⟩, rfl⟩
    exact hitem
  · exact fun hitem => ⟨_, ⟨hitem, rfl⟩, rfl⟩

/-- What holds between two rounds: nothing is left to forget, the repositories to come are unread, and what was given of
the others is asked for. -/
structure Between (pass : Pass) (groups : List (Str × List Str)) (log : PurgeLog) : Prop where
  settled : Settled pass.config log
  ids : (groups.map Prod.fst).Nodup
  items : ∀ group ∈ groups, ∀ key ∈ group.2, (group.1, key) ∈ pass.items
  unread : ∀ group ∈ groups, ∀ row, ¬ Read log group.1 row
  asked : ∀ item ∈ pass.items, pass.config.repoById item.1 ≠ none →
    Asked log item.1 item.2 ∨ ∃ group ∈ groups, group.1 = item.1 ∧ item.2 ∈ group.2

theorem between_byRepo : Between pass (byRepo pass.items) [] where
  settled := settled_nil
  ids := by
    rw [byRepo_ids]
    exact nodup_fromkeys _
  items := fun group hgroup key hkey => (mem_byRepo hgroup).1 hkey
  unread := fun group _ => not_read_nil group.1
  asked := by
    intro item hitem _
    have hid : item.1 ∈ (byRepo pass.items).map Prod.fst := by
      rw [byRepo_ids, mem_fromkeys]
      exact List.mem_map_of_mem hitem
    obtain ⟨group, hgroup, hid⟩ := List.mem_map.1 hid
    exact .inr ⟨group, hgroup, hid, (mem_byRepo hgroup).2 (hid ▸ hitem)⟩

theorem Between.handsOn {groups : List (Str × List Str)} {group : Str × List Str} {rest : PurgeProgram}
    {Q : PurgeLog → Prop} (h : Between pass (group :: groups) log)
    (hrest : ∀ log', Between pass groups log' → Program.Meets pass.Allowed Q log' rest) :
    HandsOn pass Q group log rest := by
  have hids := h.ids
  rw [List.map_cons, List.nodup_cons] at hids
  intro log' hlog' hown hasked
  refine hrest _ ⟨h.settled.append hlog', hids.2, fun g hg => h.items g (List.mem_cons_of_mem _ hg), ?_, ?_⟩
  · intro g hg row hread
    rcases read_append.1 hread with hread | hread
    · exact h.unread g (List.mem_cons_of_mem _ hg) row hread
    · exact hids.1 (hown _ row hread ▸ List.mem_map_of_mem hg)
  · intro item hitem hsome
    rcases h.asked item hitem hsome with hdone | ⟨g, hg, hid, hkey⟩
    · exact .inl hdone.append_left
    · rcases List.mem_cons.1 hg with rfl | hg
      · rw [← hid] at hsome ⊢
        exact .inl (hasked hsome item.2 hkey).append_right
      · exact .inr ⟨g, hg, hid, hkey⟩

/-- **A pass keeps to what it may request**, whatever it is answered, and leaves nothing to forget. -/
theorem Pass.meets (pass : Pass) : Program.Meets pass.Allowed pass.Ended [] pass.program := by
  have hend : ∀ log, Between pass [] log → pass.Ended log := fun log h =>
    ⟨h.settled, fun _ item hitem hsome => (h.asked item hitem hsome).resolve_right fun ⟨_, hg, _⟩ =>
      absurd hg List.not_mem_nil⟩
  cases pass with
  | retention config stale =>
    refine Program.Meets.foldr (Between (.retention config stale)) ?_ hend _ _ between_byRepo
    exact fun group groups log rest h hrest =>
      expireRepo_meets (h.unread group List.mem_cons_self) (h.items group List.mem_cons_self) (h.handsOn hrest)
  | removed config items =>
    refine Program.Meets.foldr (Between (.removed config items)) ?_ hend _ _ between_byRepo
    exact fun group groups log rest h hrest =>
      sweepRepo_meets (h.unread group List.mem_cons_self) (h.items group List.mem_cons_self) (h.handsOn hrest)
  | selected config repoId keys => exact purgeSelectedPayload_meets

end Passes
end RepoWatch
