import RepoWatch.Lib.Closure
import RepoWatch.Narinfo
import RepoWatch.PurgeRecords
/-!
# NixDiscover — the closure of a store path

`discover` follows the references of a narinfo file from record to record, taking those it has verified before in the run
from a cache and asking upstream for the others.  The references make a graph on file names (`Refers`), which may have
cycles; what the search keeps is `Found`, and it ends with the records reachable from the root or raises
(`discover_discovers`).
-/
namespace RepoWatch

open Lib

/-- The answer to a request: none, a status that `raise_for_status` refuses, or a body that arrives in chunks and ends
early unless it is `whole`. -/
inductive Response where
  | lost
  | refused (status : Int)
  | body (status : Int) (chunks : List Bytes) (whole : Bool)

/-- A narinfo file with what it says. -/
structure NixRecord (upstream : Str) where
  filename : Str
  raw : Bytes
  info : NarInfo
  parsed : parseNarinfo raw filename upstream = .ok info

abbrev NixRecords (upstream : Str) := Table (NixRecord upstream) Str NixRecord.filename

/-- What a discovery asks outside: upstream for a file, and the Nix CLI whether each of the paths has a signature by one
of the keys, given a directory of narinfo files. -/
structure Remote where
  get : Str → Response
  verify : List Str → Dict Str Bytes → List Str → Bool

def maxNarinfo : Nat := 1024 * 1024

def readBody (raw : Bytes) : List Bytes → Except NixError Bytes
  | [] => .ok raw
  | chunk :: rest =>
    if maxNarinfo < (raw ++ chunk).length then nixError "narinfo exceeds 1 MiB" else readBody (raw ++ chunk) rest

def Response.narinfo : Response → Except NixError Bytes
  | .lost => .error .httpError
  | .refused _ => .error .httpError
  | .body _ parts whole => do
    let raw ← readBody [] parts
    if whole then return raw else .error .httpError

section Discover
variable (repo : NixRepo) (remote : Remote) (cached : NixRecords repo.repo.upstream)

def fetchRecord (filename : Str) : Except NixError (NixRecord repo.repo.upstream) :=
  match (remote.get (rstripSlash repo.repo.upstream ++ '/' :: filename)).narinfo with
  | .error e => .error e
  | .ok raw =>
    match h : parseNarinfo raw filename repo.repo.upstream with
    | .error e => .error e
    | .ok info => .ok ⟨filename, raw, info, h⟩

/-- The record of a file: the one verified before in the run, or else the one that upstream serves. -/
def recordOf (filename : Str) : Except NixError (NixRecord repo.repo.upstream) :=
  match cached.get filename with
  | some record => .ok record
  | none => fetchRecord repo remote filename

theorem filename_of_fetchRecord {filename : Str} {record : NixRecord repo.repo.upstream}
    (h : fetchRecord repo remote filename = .ok record) : record.filename = filename := by
  unfold fetchRecord at h
  split at h
  · cases h
  split at h
  · cases h
  cases h
  rfl

theorem filename_of_recordOf {filename : Str} {record : NixRecord repo.repo.upstream}
    (h : recordOf repo remote cached filename = .ok record) : record.filename = filename := by
  unfold recordOf at h
  split at h
  · rename_i hget
    cases h
    exact Table.key_of_get hget
  · exact filename_of_fetchRecord repo remote h

set_option linter.unusedVariables false in
/-- The loop of `discover`: the records found, the files asked of upstream, and the files pending, the last first. -/
def discoverLoop (records : NixRecords repo.repo.upstream) (fetched : List Str) :
    List Str → Except NixError (NixRecords repo.repo.upstream) × List Str
  | [] => (.ok records, fetched)
  | filename :: pending =>
    if (records.get filename).isSome then discoverLoop records fetched pending
    else if repo.nixMaxPaths ≤ records.rows.length then (nixError "Nix closure exceeds nix_max_paths", fetched)
    else if !isNarinfo filename then (nixError "Invalid Nix root filename", fetched)
    else
      let fetched := if (cached.get filename).isSome then fetched else fetched ++ [filename]
      match hrecord : recordOf repo remote cached filename with
      | .error e => (.error e, fetched)
      | .ok record => discoverLoop (records.upsert record) fetched (record.info.refs.reverse ++ pending)
termination_by pending => (repo.nixMaxPaths - records.rows.length, pending.length)
decreasing_by
  · exact .right _ (Nat.lt_succ_self _)
  · rename_i hfound hlimit _
    have hnew : records.get record.filename = none := by
      rw [filename_of_recordOf repo remote cached hrecord]
      simpa using hfound
    have hlen := congrArg List.length (Table.keys_upsert hnew)
    rw [List.length_append, List.length_map, List.length_map, List.length_singleton] at hlen
    exact .left _ _ (by omega)

/-- The copy that is verified: without the lines `CA:`, for which Nix would ask no signature. -/
def signedFields (raw : Bytes) : Bytes :=
  [10].intercalate ((raw.splitOn 10).filter fun line => !List.isPrefixOf [67, 65, 58, 32] line)

def verificationCopy {upstream : Str} (records : NixRecords upstream) : Dict Str Bytes :=
  .ofPairs (records.rows.map fun r => (r.filename, signedFields r.raw))

/-- `verify_metadata`. -/
def verifyMetadata {upstream : Str} (records : NixRecords upstream) : Bool :=
  (chunks 128 (records.rows.map fun r => r.info.path)).all
    (remote.verify repo.nixPublicKeys (verificationCopy records))

structure Discovery where
  result : Except NixError (NixRecords repo.repo.upstream)
  fetched : List Str
  cached : NixRecords repo.repo.upstream

/-- `discover`. -/
def discover (root : Str) : Discovery repo :=
  match discoverLoop repo remote cached Table.empty [] [root] with
  | (.error e, fetched) => ⟨.error e, fetched, cached⟩
  | (.ok records, fetched) =>
    if repo.verifySignature && !verifyMetadata repo remote records then ⟨.error .signatureError, fetched, cached⟩
    else ⟨.ok records, fetched, cached.upsertAll records.rows⟩

end Discover

/-! ## The graph of references -/

section Graph
variable {repo : NixRepo} {remote : Remote} {cached : NixRecords repo.repo.upstream} {root : Str}

/-- The record of one file lists the other among its references. -/
def Refers (repo : NixRepo) (remote : Remote) (cached : NixRecords repo.repo.upstream) (f g : Str) : Prop :=
  ∃ record, recordOf repo remote cached f = .ok record ∧ g ∈ record.info.refs

/-- What the search keeps. -/
structure Found (repo : NixRepo) (remote : Remote) (cached : NixRecords repo.repo.upstream) (root : Str)
    (records : NixRecords repo.repo.upstream) (fetched pending : List Str) : Prop where
  explored : Explored (Refers repo remote cached) root (records.rows.map NixRecord.filename) pending
  record : ∀ r ∈ records.rows, recordOf repo remote cached r.filename = .ok r
  fetchedNodup : fetched.Nodup
  fetchedIff : ∀ f, f ∈ fetched ↔ f ∈ records.rows.map NixRecord.filename ∧ cached.get f = none
  bound : records.rows.length ≤ repo.nixMaxPaths
  valid : ∀ f ∈ pending, isNarinfo f = true

/-- Why the search raises. -/
def Fails (repo : NixRepo) (remote : Remote) (cached : NixRecords repo.repo.upstream) (root : Str) : Prop :=
  ¬ ReachAtMost (Refers repo remote cached) root repo.nixMaxPaths ∨
    ∃ f, Reach (Refers repo remote cached) root f ∧ ∃ e, recordOf repo remote cached f = .error e

/-- What was fetched before the search raised. -/
structure Fetched (repo : NixRepo) (remote : Remote) (cached : NixRecords repo.repo.upstream) (root : Str)
    (fetched : List Str) : Prop where
  nodup : fetched.Nodup
  reach : ∀ f ∈ fetched, Reach (Refers repo remote cached) root f ∧ cached.get f = none

variable {records : NixRecords repo.repo.upstream} {fetched pending : List Str} {filename : Str}

theorem Found.start (hroot : isNarinfo root = true) : Found repo remote cached root Table.empty [] [root] where
  explored := Explored.start
  record := fun _ hr => absurd hr List.not_mem_nil
  fetchedNodup := List.nodup_nil
  fetchedIff := fun _ => ⟨fun h => absurd h List.not_mem_nil, fun h => absurd h.1 List.not_mem_nil⟩
  bound := Nat.zero_le _
  valid := fun _ hf => List.mem_singleton.1 hf ▸ hroot

theorem Found.fetches (h : Found repo remote cached root records fetched pending) :
    Fetched repo remote cached root fetched where
  nodup := h.fetchedNodup
  reach := fun f hf => ⟨h.explored.reach f (.inl ((h.fetchedIff f).1 hf).1), ((h.fetchedIff f).1 hf).2⟩

theorem Found.drop (h : Found repo remote cached root records fetched (filename :: pending))
    (hfound : (records.get filename).isSome) : Found repo remote cached root records fetched pending :=
  { h with
    explored := h.explored.drop (Table.mem_keys_iff.2 hfound)
    valid := fun f hf => h.valid f (List.mem_cons_of_mem _ hf) }

/-- The files fetched once a pending one is visited. -/
theorem Found.fetchedNext (h : Found repo remote cached root records fetched (filename :: pending))
    (hnew : records.get filename = none) :
    (if (cached.get filename).isSome then fetched else fetched ++ [filename]).Nodup ∧
      ∀ f, f ∈ (if (cached.get filename).isSome then fetched else fetched ++ [filename]) ↔
        (f ∈ records.rows.map NixRecord.filename ∨ f = filename) ∧ cached.get f = none := by
  cases hcached : cached.get filename with
  | some r =>
    refine ⟨h.fetchedNodup, fun f => (h.fetchedIff f).trans ?_⟩
    constructor
    · exact fun hf => ⟨.inl hf.1, hf.2⟩
    · rintro ⟨hf | rfl, hnone⟩
      · exact ⟨hf, hnone⟩
      · rw [hcached] at hnone
        cases hnone
  | none =>
    have hfresh : filename ∉ fetched := fun hf => by
      have := Table.mem_keys_iff.1 ((h.fetchedIff filename).1 hf).1
      rw [hnew] at this
      cases this
    refine ⟨List.nodup_append.2 ⟨h.fetchedNodup, List.nodup_singleton _, ?_⟩, fun f => ?_⟩
    · rintro a ha b hb rfl
      exact hfresh (List.mem_singleton.1 hb ▸ ha)
    · rw [Option.isSome_none, if_neg Bool.false_ne_true, List.mem_append, List.mem_singleton, h.fetchedIff]
      constructor
      · rintro (hf | rfl)
        · exact ⟨.inl hf.1, hf.2⟩
        · exact ⟨.inr rfl, hcached⟩
      · rintro ⟨hf | rfl, hnone⟩
        · exact .inl ⟨hf, hnone⟩
        · exact .inr rfl

theorem Found.visit {record : NixRecord repo.repo.upstream}
    (h : Found repo remote cached root records fetched (filename :: pending)) (hnew : records.get filename = none)
    (hlimit : records.rows.length < repo.nixMaxPaths) (hrecord : recordOf repo remote cached filename = .ok record) :
    Found repo remote cached root (records.upsert record)
      (if (cached.get filename).isSome then fetched else fetched ++ [filename]) (record.info.refs.reverse ++ pending) := by
  have hname : record.filename = filename := filename_of_recordOf repo remote cached hrecord
  have hkeys := Table.keys_upsert (r := record) (t := records) (by rw [hname]; exact hnew)
  have hmem : ∀ f, f ∈ (records.upsert record).rows.map NixRecord.filename ↔
      f ∈ records.rows.map NixRecord.filename ∨ f = filename := by
    intro f
    rw [hkeys, List.mem_append, List.mem_singleton, hname]
  obtain ⟨hnodup, hfetched⟩ := h.fetchedNext hnew
  refine ⟨h.explored.visit hmem fun f => ?_, fun r hr => ?_, hnodup, fun f => ?_, ?_, fun f hf => ?_⟩
  · rw [List.mem_append, List.mem_reverse, or_comm]
    refine or_congr_right ⟨fun hf => ⟨record, hrecord, hf⟩, ?_⟩
    rintro ⟨r, hr, hf⟩
    rw [hrecord] at hr
    cases hr
    exact hf
  · rw [Table.mem_rows_iff, Table.get_upsert] at hr
    split at hr
    · cases hr
      rw [hname]
      exact hrecord
    · exact h.record r (Table.mem_rows_iff.2 hr)
  · rw [hmem]
    exact hfetched f
  · have hlen := congrArg List.length hkeys
    rw [List.length_append, List.length_map, List.length_map, List.length_singleton] at hlen
    omega
  · rcases List.mem_append.1 hf with hf | hf
    · exact (parseNarinfo_ok record.parsed).2.1 f (List.mem_reverse.1 hf)
    · exact h.valid f (List.mem_cons_of_mem _ hf)

/-- **The search** ends with nothing pending, or raises for a reason. -/
theorem Found.loop : ∀ {records : NixRecords repo.repo.upstream} {fetched pending : List Str},
    Found repo remote cached root records fetched pending →
    (∀ records', (discoverLoop repo remote cached records fetched pending).1 = .ok records' →
      Found repo remote cached root records' (discoverLoop repo remote cached records fetched pending).2 []) ∧
    (∀ e, (discoverLoop repo remote cached records fetched pending).1 = .error e → Fails repo remote cached root) ∧
    Fetched repo remote cached root (discoverLoop repo remote cached records fetched pending).2 := by
  intro records fetched pending
  fun_induction discoverLoop repo remote cached records fetched pending with
  | case1 records fetched =>
    refine fun h => ⟨fun records' hok => ?_, fun e he => (by cases he), h.fetches⟩
    cases hok
    exact h
  | case2 records fetched filename pending hfound ih => exact fun h => ih (h.drop hfound)
  | case3 records fetched filename pending hfound hlimit =>
    intro h
    refine ⟨fun records' hok => (by cases hok), fun e _ => .inl fun hatMost => ?_, h.fetches⟩
    have hnew : filename ∉ records.rows.map NixRecord.filename := fun hm => hfound (Table.mem_keys_iff.1 hm)
    obtain ⟨hnodup, hreach⟩ := h.explored.nodup_cons records.keysNodup hnew
    have hlen := hatMost _ hnodup hreach
    rw [List.length_cons, List.length_map] at hlen
    omega
  | case4 records fetched filename pending hfound hlimit hinvalid =>
    intro h
    rw [h.valid filename List.mem_cons_self] at hinvalid
    cases hinvalid
  | case5 records fetched filename pending hfound hlimit hvalid fetched' e hrecord =>
    intro h
    have hreach := h.explored.reach filename (.inr List.mem_cons_self)
    refine ⟨fun records' hok => (by cases hok), fun _ _ => .inr ⟨filename, hreach, e, hrecord⟩, ?_⟩
    obtain ⟨hnodup, hfetched⟩ := h.fetchedNext (by simpa using hfound)
    refine ⟨hnodup, fun f hf => ?_⟩
    obtain ⟨hf | rfl, hnone⟩ := (hfetched f).1 hf
    · exact ⟨h.explored.reach f (.inl hf), hnone⟩
    · exact ⟨hreach, hnone⟩
  | case6 records fetched filename pending hfound hlimit hvalid fetched' record hrecord ih =>
    exact fun h => ih (h.visit (by simpa using hfound) (Nat.lt_of_not_le hlimit) hrecord)

/-! ## The discovery -/

/-- How a discovery ends, with the cache it leaves. -/
inductive Ended (repo : NixRepo) (remote : Remote) (cached : NixRecords repo.repo.upstream) (root : Str) :
    Discovery repo → Prop
  | ok {records : NixRecords repo.repo.upstream} {fetched : List Str}
      (found : Found repo remote cached root records fetched [])
      (verified : repo.verifySignature = true → verifyMetadata repo remote records = true) :
      Ended repo remote cached root ⟨.ok records, fetched, cached.upsertAll records.rows⟩
  | unsigned {records : NixRecords repo.repo.upstream} {fetched : List Str} (e : NixError)
      (found : Found repo remote cached root records fetched []) (verify : repo.verifySignature = true)
      (refused : verifyMetadata repo remote records = false) :
      Ended repo remote cached root ⟨.error e, fetched, cached⟩
  | failed {fetched : List Str} (e : NixError) (fails : Fails repo remote cached root)
      (fetches : Fetched repo remote cached root fetched) :
      Ended repo remote cached root ⟨.error e, fetched, cached⟩

theorem discover_ended (hroot : isNarinfo root = true) :
    Ended repo remote cached root (discover repo remote cached root) := by
  have hstart : Found repo remote cached root Table.empty [] [root] := Found.start hroot
  obtain ⟨hok, herror, hfetched⟩ := hstart.loop
  unfold discover
  split
  · rename_i e fetched heq
    rw [heq] at herror hfetched
    exact .failed e (herror e rfl) hfetched
  · rename_i records fetched heq
    rw [heq] at hok
    have hfound := hok records rfl
    split
    · rename_i hrefused
      simp only [Bool.and_eq_true, Bool.not_eq_true'] at hrefused
      exact .unsigned _ hfound hrefused.1 hrefused.2
    · rename_i hverified
      refine .ok hfound fun hverify => ?_
      rw [hverify] at hverified
      simpa using hverified

/-- A root that is no narinfo file is refused. -/
theorem isNarinfo_of_discover (h : (discover repo remote cached root).result = .ok records) : isNarinfo root = true := by
  by_contra hroot
  have hloop : ∃ e, (discoverLoop repo remote cached Table.empty [] [root]).1 = .error e := by
    rw [discoverLoop]
    split
    · rename_i hfound
      cases hfound
    split
    · exact ⟨_, rfl⟩
    rw [if_pos (by simpa using hroot)]
    exact ⟨_, rfl⟩
  obtain ⟨e, he⟩ := hloop
  unfold discover at h
  split at h
  · cases h
  · rename_i heq
    rw [heq] at he
    cases he

theorem Ended.found {d : Discovery repo} (h : Ended repo remote cached root d) (hok : d.result = .ok records) :
    Found repo remote cached root records d.fetched [] ∧ d.cached = cached.upsertAll records.rows := by
  cases h with
  | ok hfound _ =>
    cases hok
    exact ⟨hfound, rfl⟩
  | unsigned _ _ _ _ => cases hok
  | failed _ _ _ => cases hok

theorem discover_unchanged {e : NixError} (h : (discover repo remote cached root).result = .error e) :
    (discover repo remote cached root).cached = cached := by
  unfold discover at h ⊢
  split at h
  · rfl
  · rw [apply_ite Discovery.result] at h
    split at h
    · rename_i hrefused
      rw [if_pos hrefused]
    · cases h

/-- `nix store verify` accepts paths when each has a narinfo in the directory that is trusted. -/
def VerifiesEach (verify : List Str → Dict Str Bytes → List Str → Bool) (trusted : List Str → Str → Bytes → Bool) : Prop :=
  ∀ keys directory paths, paths ≠ [] → (verify keys directory paths = true ↔ ∀ path ∈ paths,
    ∃ f narinfo, narinfoOf path = some f ∧ directory.lookup f = some narinfo ∧ trusted keys path narinfo = true)

theorem ne_nil_of_mem_chunks {α : Type} {n : Nat} {l batch : List α} (h : batch ∈ chunks n l) : batch ≠ [] := by
  obtain ⟨i, hi, rfl⟩ := List.mem_map.1 h
  have hn : 0 < n := by
    rcases Nat.eq_zero_or_pos n with rfl | hn
    · simp at hi
    · exact hn
  have hlt : i * n < l.length := by
    have := (Nat.le_div_iff_mul_le hn).1 (List.mem_range.1 hi)
    rw [Nat.succ_mul] at this
    omega
  intro hnil
  have := congrArg List.length hnil
  rw [List.length_take, List.length_drop, List.length_nil] at this
  omega

theorem lookup_verificationCopy {upstream : Str} {records : NixRecords upstream} {r : NixRecord upstream}
    (hr : r ∈ records.rows) : (verificationCopy records).lookup r.filename = some (signedFields r.raw) := by
  refine (Dict.lookup_ofPairs_iff ?_).2 (List.mem_map.2 ⟨r, hr, rfl⟩)
  rw [List.map_map]
  exact records.keysNodup

variable {trusted : List Str → Str → Bytes → Bool}

/-- Verifying batch by batch is verifying every record. -/
theorem verifyMetadata_iff (hverify : VerifiesEach remote.verify trusted) :
    verifyMetadata repo remote records = true ↔
      ∀ r ∈ records.rows, trusted repo.nixPublicKeys r.info.path (signedFields r.raw) = true := by
  unfold verifyMetadata
  rw [List.all_eq_true]
  constructor
  · intro h r hr
    have hpath : r.info.path ∈ (chunks 128 (records.rows.map fun r => r.info.path)).flatten := by
      rw [flatten_chunks (by decide)]
      exact List.mem_map_of_mem hr
    obtain ⟨batch, hbatch, hpath⟩ := List.mem_flatten.1 hpath
    obtain ⟨f, narinfo, hf, hlookup, htrusted⟩ :=
      (hverify _ _ batch (ne_nil_of_mem_chunks hbatch)).1 (h batch hbatch) _ hpath
    rw [(parseNarinfo_ok r.parsed).1, Option.some.injEq] at hf
    rw [← hf, lookup_verificationCopy hr, Option.some.injEq] at hlookup
    rwa [hlookup]
  · intro h batch hbatch
    refine (hverify _ _ batch (ne_nil_of_mem_chunks hbatch)).2 fun path hpath => ?_
    have hmem := List.mem_flatten.2 ⟨batch, hbatch, hpath⟩
    rw [flatten_chunks (by decide)] at hmem
    obtain ⟨r, hr, rfl⟩ := List.mem_map.1 hmem
    exact ⟨r.filename, signedFields r.raw, (parseNarinfo_ok r.parsed).1, lookup_verificationCopy hr, h r hr⟩

/-- **What a discovery does**: it ends with the records reachable from the root, or raises because too many are or because
one of them fails, and then leaves the cache alone. -/
structure Discovers (trusted : List Str → Str → Bytes → Bool) (repo : NixRepo) (remote : Remote)
    (cached : NixRecords repo.repo.upstream) (root : Str) (d : Discovery repo) : Prop where
  raises : (∃ e, d.result = .error e) ↔
    ¬ ReachAtMost (Refers repo remote cached) root repo.nixMaxPaths ∨
      ∃ f, Reach (Refers repo remote cached) root f ∧ ((∃ e, recordOf repo remote cached f = .error e) ∨
        ∃ r, recordOf repo remote cached f = .ok r ∧ repo.verifySignature = true ∧
          trusted repo.nixPublicKeys r.info.path (signedFields r.raw) = false)
  returned : ∀ records, d.result = .ok records → ∀ f r,
    records.get f = some r ↔ Reach (Refers repo remote cached) root f ∧ recordOf repo remote cached f = .ok r
  fetches : Fetched repo remote cached root d.fetched
  fetchesAll : ∀ records, d.result = .ok records → ∀ f, Reach (Refers repo remote cached) root f →
    cached.get f = none → f ∈ d.fetched
  unchanged : ∀ e, d.result = .error e → d.cached = cached
  added : ∀ records, d.result = .ok records → ∀ f, d.cached.get f = (records.get f).or (cached.get f)

theorem Found.reachable (h : Found repo remote cached root records fetched []) {f : Str}
    (hf : Reach (Refers repo remote cached) root f) : ∃ r ∈ records.rows, r.filename = f :=
  List.mem_map.1 (h.explored.mem_iff.2 hf)

theorem Found.get_iff (h : Found repo remote cached root records fetched []) {f : Str}
    {r : NixRecord repo.repo.upstream} :
    records.get f = some r ↔ Reach (Refers repo remote cached) root f ∧ recordOf repo remote cached f = .ok r := by
  rw [Table.get_eq_some_iff]
  constructor
  · rintro ⟨hr, rfl⟩
    exact ⟨h.explored.mem_iff.1 (List.mem_map_of_mem hr), h.record r hr⟩
  · rintro ⟨hf, hrecord⟩
    obtain ⟨r', hr', rfl⟩ := h.reachable hf
    have heq := (h.record r' hr').symm.trans hrecord
    cases heq
    exact ⟨hr', rfl⟩

/-- A finished search meets no reason to raise. -/
theorem Found.not_fails (h : Found repo remote cached root records fetched []) : ¬ Fails repo remote cached root := by
  rintro (hmax | ⟨f, hf, e, he⟩)
  · refine hmax fun l hnodup hreach => ?_
    have := h.explored.reachAtMost l hnodup hreach
    rw [List.length_map] at this
    exact this.trans h.bound
  · obtain ⟨r, hr, rfl⟩ := h.reachable hf
    rw [h.record r hr] at he
    cases he

theorem get_addAll (cached records : NixRecords repo.repo.upstream) (f : Str) :
    (cached.upsertAll records.rows).get f = (records.get f).or (cached.get f) := by
  cases hget : records.get f with
  | none => exact Table.get_upsertAll_of_not_mem (Table.get_eq_none_iff.1 hget) cached
  | some r =>
    obtain ⟨hr, rfl⟩ := Table.get_eq_some_iff.1 hget
    exact Table.get_upsertAll_of_nodup records.keysNodup hr cached

theorem Ended.discovers (hverify : VerifiesEach remote.verify trusted) {d : Discovery repo}
    (h : Ended repo remote cached root d) : Discovers trusted repo remote cached root d := by
  cases h with
  | @ok records fetched hfound hverified =>
    refine ⟨⟨fun ⟨_, he⟩ => (by cases he), fun hwhy => ?_⟩, ?_, hfound.fetches, ?_, fun _ he => (by cases he), ?_⟩
    · rcases hwhy with hmax | ⟨f, hf, herror | ⟨r, hrecord, hsign, huntrusted⟩⟩
      · exact absurd (.inl hmax) hfound.not_fails
      · exact absurd (.inr ⟨f, hf, herror⟩) hfound.not_fails
      · have hr := (hfound.get_iff.2 ⟨hf, hrecord⟩)
        have := (verifyMetadata_iff hverify).1 (hverified hsign) r (Table.mem_of_get hr)
        rw [huntrusted] at this
        cases this
    · rintro records' ⟨⟩ f r
      exact hfound.get_iff
    · rintro records' ⟨⟩ f hf hnone
      exact (hfound.fetchedIff f).2 ⟨hfound.explored.mem_iff.2 hf, hnone⟩
    · rintro records' ⟨⟩ f
      exact get_addAll cached records f
  | @unsigned records fetched e hfound hsign hrefused =>
    refine ⟨⟨fun _ => .inr ?_, fun _ => ⟨e, rfl⟩⟩, fun _ hok => (by cases hok), hfound.fetches, fun _ hok => (by cases hok),
      fun _ _ => rfl, fun _ hok => (by cases hok)⟩
    have huntrusted : ¬ ∀ r ∈ records.rows, trusted repo.nixPublicKeys r.info.path (signedFields r.raw) = true := by
      rw [← verifyMetadata_iff hverify, hrefused]
      exact Bool.false_ne_true
    push Not at huntrusted
    obtain ⟨r, hr, huntrusted⟩ := huntrusted
    exact ⟨r.filename, hfound.explored.mem_iff.1 (List.mem_map_of_mem hr), .inr ⟨r, hfound.record r hr, hsign,
      Bool.eq_false_iff.2 huntrusted⟩⟩
  | failed e hfails hfetches =>
    refine ⟨⟨fun _ => hfails.imp_right ?_, fun _ => ⟨e, rfl⟩⟩, fun _ hok => (by cases hok), hfetches,
      fun _ hok => (by cases hok), fun _ _ => rfl, fun _ hok => (by cases hok)⟩
    rintro ⟨f, hf, herror⟩
    exact ⟨f, hf, .inl herror⟩

/-- **Discovery is complete**, from every root and whatever was verified before. -/
theorem discover_discovers (hverify : VerifiesEach remote.verify trusted) (hroot : isNarinfo root = true) :
    Discovers trusted repo remote cached root (discover repo remote cached root) :=
  (discover_ended hroot).discovers hverify

end Graph
end RepoWatch
