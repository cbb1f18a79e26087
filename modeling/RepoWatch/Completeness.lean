import RepoWatch.Isolation
import RepoWatch.Lib.Loop
import RepoWatch.Repositories
/-!
# Completeness — what a scan of the cache proves of the catalogs

Each package is cached, missing or unknown.  It is missing only when the whole cache was read and its key has no doubt about
it, so a scan that saw less never finds more packages cached or missing (`completeness_evidence`).
-/
namespace RepoWatch

open Lib

/-! ## What is known -/

/-- A file of a scanned leaf; without a readable key it has none. -/
structure ScanEntry where
  leaf : Str
  file : Str
  key : Option Str
  size : Option Int := none
  error : Option Str := none
  deriving DecidableEq

structure Inventory where
  entries : List ScanEntry
  failedLeaves : Nat := 0
  deriving DecidableEq

namespace Inventory
variable (inventory : Inventory)

/-- The keys of the readable entries. -/
def present : List Str := inventory.entries.filterMap fun e => if known e.error then none else e.key.filter (· ≠ [])

def incomplete : Bool := inventory.failedLeaves != 0 || inventory.entries.any fun e => !known e.key || known e.error

end Inventory

/-- What `catalog_snapshot` reads of one repository. -/
structure Catalog where
  lastCheck : Option Str
  sourceIdentity : Option Str
  packages : List (Str × Str)
  pending : List Str
  /-- The files of each closure. -/
  artifacts : Str → List Str

inductive Presence where
  | cached | missing | unknown
  deriving DecidableEq

inductive CompletenessState where
  | unknown | empty | partly | complete
  deriving DecidableEq

inductive CompletenessReason where
  | noSnapshot | sourceChanged | incompleteEvidence
  deriving DecidableEq

/-- One item of the report. -/
structure CompletenessRow (π : Type) where
  repoId : Str
  totalPackages : Option Nat
  cachedPackages : Nat := 0
  missingPackages : Nat := 0
  unknownPackages : Nat := 0
  percent : Option π := none
  state : CompletenessState := .unknown
  lastCheck : Option Str
  reason : Option CompletenessReason := none

/-- `row[...] += 1`. -/
def CompletenessRow.count {π : Type} (row : CompletenessRow π) : Presence → CompletenessRow π
  | .cached => { row with cachedPackages := row.cachedPackages + 1 }
  | .missing => { row with missingPackages := row.missingPackages + 1 }
  | .unknown => { row with unknownPackages := row.unknownPackages + 1 }

/-! ## The report -/

section Report
variable (lower : Str → Str) (identity : RepoConfig → Str) {π : Type} (percentOf : Nat → Nat → π)
  (config : Config) (catalogs : Str → Catalog) (builder : CacheKeyBuilder) (dedupKeys : Dict Str Str)

/-- The key that a request for a package is answered from. -/
def effectiveKey (repo : RepoConfig) (keyFor : BoundKey) (filename : Str) : Str :=
  (dedupKeys.lookup (lower (packagePath repo filename))).getD (keyFor.key filename)

def outdated (repo : RepoConfig) : Bool := (catalogs repo.id).sourceIdentity != some (identity repo)

/-- The keys of a repository that its own catalog casts doubt on. -/
def uncertainOf (repo : RepoConfig) (keyFor : BoundKey) : List Str :=
  ((catalogs repo.id).packages.filter fun p => outdated identity catalogs repo || (catalogs repo.id).pending.contains p.1).flatMap
    fun p => [keyFor.key p.2, effectiveKey lower dedupKeys repo keyFor p.2]

def uncertainKeys : Except Error (List Str) := do
  return (← config.repos.mapM fun repo => do
    return uncertainOf lower identity catalogs dedupKeys repo (← builder.forRepo repo)).flatten

/-- Whether the closure of a Nix package is known and cached. -/
def closureCached (present : List Str) (keyFor : BoundKey) (artifacts : List Str) (filename : Str) : Bool :=
  artifacts.contains filename && artifacts.any (fun f => !(".narinfo".toList.isSuffixOf f)) &&
    artifacts.all fun f => present.contains (keyFor.key f)

/-- How one package is counted. -/
def presenceOf (inventory : Inventory) (uncertain : List Str) (repo : RepoConfig) (keyFor : BoundKey) (p : Str × Str) :
    Presence :=
  let catalog := catalogs repo.id
  if catalog.pending.contains p.1 then .unknown
  else if repo.type = .nix then
    if closureCached inventory.present keyFor (catalog.artifacts p.1) p.2 then .cached else .unknown
  else
    let key := effectiveKey lower dedupKeys repo keyFor p.2
    if uncertain.contains key then .unknown
    else if inventory.present.contains key then .cached
    else if inventory.incomplete || key = [] then .unknown
    else .missing

/-- The reason, the state and the percentage of a counted row. -/
def conclude (row : CompletenessRow π) (total : Nat) : CompletenessRow π :=
  if row.unknownPackages ≠ 0 then { row with reason := some .incompleteEvidence }
  else if total = 0 then { row with state := .empty }
  else
    { row with
      percent := some (percentOf row.cachedPackages total)
      state := if row.cachedPackages = total then .complete else .partly }

def summarizeRepo (inventory : Inventory) (uncertain : List Str) (repo : RepoConfig) : Except Error (CompletenessRow π) :=
  let catalog := catalogs repo.id
  let total := catalog.packages.length
  let row : CompletenessRow π := { repoId := repo.id, totalPackages := some total, lastCheck := catalog.lastCheck }
  if !known catalog.lastCheck then .ok { row with totalPackages := none, reason := some .noSnapshot }
  else if outdated identity catalogs repo then .ok { row with unknownPackages := total, reason := some .sourceChanged }
  else do
    let keyFor ← builder.forRepo repo
    let row := catalog.packages.foldl
      (fun row p => row.count (presenceOf lower catalogs dedupKeys inventory uncertain repo keyFor p)) row
    return conclude percentOf row total

/-- `summarize`. -/
def summarize (inventory : Inventory) : Except Error (List (CompletenessRow π)) := do
  let uncertain ← uncertainKeys lower identity config catalogs builder dedupKeys
  config.repos.mapM (summarizeRepo lower identity percentOf catalogs builder dedupKeys inventory uncertain)

end Report

/-! ## What the report says -/

section Evidence
variable (lower : Str → Str) (identity : RepoConfig → Str) {π : Type} (percentOf : Nat → Nat → π)
  (config : Config) (catalogs : Str → Catalog) (builder : CacheKeyBuilder) (dedupKeys : Dict Str Str)

/-- How a package of any repository is counted. -/
def countedAs (inventory : Inventory) (uncertain : List Str) (repo : RepoConfig) (keyFor : BoundKey) (p : Str × Str) : Presence :=
  if !known (catalogs repo.id).lastCheck || outdated identity catalogs repo then .unknown
  else presenceOf lower catalogs dedupKeys inventory uncertain repo keyFor p

/-- A row counts the packages of its repository. -/
structure RowSound (inventory : Inventory) (uncertain : List Str) (repo : RepoConfig) (keyFor : BoundKey)
    (row : CompletenessRow π) : Prop where
  repoId : row.repoId = repo.id
  total : known (catalogs repo.id).lastCheck = true →
    row.totalPackages = some (row.cachedPackages + row.missingPackages + row.unknownPackages) ∧
      row.totalPackages = some (catalogs repo.id).packages.length
  cached : row.cachedPackages = ((catalogs repo.id).packages.countP fun p =>
    countedAs lower identity catalogs dedupKeys inventory uncertain repo keyFor p = .cached)
  missing : row.missingPackages = ((catalogs repo.id).packages.countP fun p =>
    countedAs lower identity catalogs dedupKeys inventory uncertain repo keyFor p = .missing)
  settled : row.percent.isSome = true ∨ row.state = .complete ∨ row.state = .partly → row.unknownPackages = 0

/-- What is known of a missing package: the whole cache was read, its key is not in it, and no package that is being
replaced or comes from another source is answered from that key. -/
structure ProvenMissing (inventory : Inventory) (repo : RepoConfig) (keyFor : BoundKey) (p : Str × Str) : Prop where
  scanned : inventory.failedLeaves = 0
  readable : ∀ e ∈ inventory.entries, known e.key = true ∧ known e.error = false
  nonempty : effectiveKey lower dedupKeys repo keyFor p.2 ≠ []
  absent : ∀ e ∈ inventory.entries, e.key ≠ some (effectiveKey lower dedupKeys repo keyFor p.2)
  certain : ∀ other ∈ config.repos, ∀ keyFor', builder.forRepo other = .ok keyFor' → ∀ q ∈ (catalogs other.id).packages,
    (outdated identity catalogs other = true ∨ q.1 ∈ (catalogs other.id).pending) →
      effectiveKey lower dedupKeys repo keyFor p.2 ≠ keyFor'.key q.2 ∧
      effectiveKey lower dedupKeys repo keyFor p.2 ≠ effectiveKey lower dedupKeys other keyFor' q.2

end Evidence

/-- A scan that saw less: entries may be gone, but then some leaf counts as failed. -/
structure Inventory.Degrades (full seen : Inventory) : Prop where
  entries : seen.entries ⊆ full.entries
  failed : full.failedLeaves ≤ seen.failedLeaves
  marked : seen.entries = full.entries ∨ 0 < seen.failedLeaves

section Sound
variable {lower : Str → Str} {identity : RepoConfig → Str} {π : Type} {percentOf : Nat → Nat → π}
  {config : Config} {catalogs : Str → Catalog} {builder : CacheKeyBuilder} {dedupKeys : Dict Str Str}
  {inventory seen : Inventory} {uncertain : List Str} {repo : RepoConfig} {keyFor : BoundKey} {p : Str × Str}

theorem mem_present {key : Str} : key ∈ inventory.present ↔
    ∃ e ∈ inventory.entries, known e.error = false ∧ e.key = some key ∧ key ≠ [] := by
  unfold Inventory.present
  rw [List.mem_filterMap]
  refine exists_congr fun e => and_congr_right fun _ => ?_
  cases known e.error
  · simp [Option.filter_eq_some_iff]
  · simp

theorem incomplete_eq_false : inventory.incomplete = false ↔
    inventory.failedLeaves = 0 ∧ ∀ e ∈ inventory.entries, known e.key = true ∧ known e.error = false := by
  unfold Inventory.incomplete
  rw [Bool.or_eq_false_iff, List.any_eq_false]
  simp

theorem Inventory.Degrades.present (h : inventory.Degrades seen) {key : Str} (hkey : key ∈ seen.present) :
    key ∈ inventory.present := by
  obtain ⟨e, he, hrest⟩ := mem_present.1 hkey
  exact mem_present.2 ⟨e, h.entries he, hrest⟩

/-- **A complete scan that degrades a scan** saw the same. -/
theorem Inventory.Degrades.entries_eq (h : inventory.Degrades seen) (hseen : seen.incomplete = false) :
    seen.entries = inventory.entries ∧ inventory.incomplete = false := by
  obtain ⟨hfailed, hreadable⟩ := incomplete_eq_false.1 hseen
  have hentries : seen.entries = inventory.entries := h.marked.resolve_right (by omega)
  have hle := h.failed
  exact ⟨hentries, incomplete_eq_false.2 ⟨by omega, hentries ▸ hreadable⟩⟩

theorem presenceOf_missing (h : presenceOf lower catalogs dedupKeys inventory uncertain repo keyFor p = .missing) :
    p.1 ∉ (catalogs repo.id).pending ∧ repo.type ≠ .nix ∧ effectiveKey lower dedupKeys repo keyFor p.2 ∉ uncertain ∧
      effectiveKey lower dedupKeys repo keyFor p.2 ∉ inventory.present ∧ inventory.incomplete = false ∧
      effectiveKey lower dedupKeys repo keyFor p.2 ≠ [] := by
  dsimp only [presenceOf] at h
  split at h
  · cases h
  · rename_i hpending
    split at h
    · split at h <;> cases h
    · rename_i hnix
      split at h
      · cases h
      · rename_i hcertain
        split at h
        · cases h
        · rename_i habsent
          split at h
          · cases h
          · rename_i hopen
            rw [Bool.or_eq_true, not_or, decide_eq_true_eq] at hopen
            rw [List.contains_iff_mem] at hpending hcertain habsent
            exact ⟨hpending, hnix, hcertain, habsent, Bool.eq_false_iff.2 hopen.1, hopen.2⟩

theorem presenceOf_of_missing (hpending : p.1 ∉ (catalogs repo.id).pending) (hnix : repo.type ≠ .nix)
    (hcertain : effectiveKey lower dedupKeys repo keyFor p.2 ∉ uncertain)
    (habsent : effectiveKey lower dedupKeys repo keyFor p.2 ∉ inventory.present) (hcomplete : inventory.incomplete = false)
    (hkey : effectiveKey lower dedupKeys repo keyFor p.2 ≠ []) :
    presenceOf lower catalogs dedupKeys inventory uncertain repo keyFor p = .missing := by
  rw [← List.contains_iff_mem] at hpending hcertain habsent
  dsimp only [presenceOf]
  rw [if_neg hpending, if_neg hnix, if_neg hcertain, if_neg habsent, if_neg (by simp [hcomplete, hkey])]

theorem closureCached_mono {present present' artifacts : List Str} {filename : Str} (h : present ⊆ present')
    (hcached : closureCached present keyFor artifacts filename = true) :
      closureCached present' keyFor artifacts filename = true := by
  unfold closureCached at hcached ⊢
  rw [Bool.and_eq_true, List.all_eq_true] at hcached ⊢
  exact ⟨hcached.1, fun f hf => List.contains_iff_mem.2 (h (List.contains_iff_mem.1 (hcached.2 f hf)))⟩

/-- **A scan that saw less** counts no package as cached that was not. -/
theorem presenceOf_cached (hdegrades : inventory.Degrades seen)
    (h : presenceOf lower catalogs dedupKeys seen uncertain repo keyFor p = .cached) :
    presenceOf lower catalogs dedupKeys inventory uncertain repo keyFor p = .cached := by
  dsimp only [presenceOf] at h ⊢
  split at h
  · cases h
  · rename_i hpending
    rw [if_neg hpending]
    split at h
    · rename_i hnix
      rw [if_pos hnix]
      split at h
      · rename_i hclosure
        exact if_pos (closureCached_mono (fun _ => hdegrades.present) hclosure)
      · cases h
    · rename_i hnix
      rw [if_neg hnix]
      split at h
      · cases h
      · rename_i hcertain
        rw [if_neg hcertain]
        split at h
        · rename_i hpresent
          exact if_pos (List.contains_iff_mem.2 (hdegrades.present (List.contains_iff_mem.1 hpresent)))
        · split at h <;> cases h

/-- **A scan that saw less** finds no package missing that was not. -/
theorem presenceOf_missing_degrades (hdegrades : inventory.Degrades seen)
    (h : presenceOf lower catalogs dedupKeys seen uncertain repo keyFor p = .missing) :
    presenceOf lower catalogs dedupKeys inventory uncertain repo keyFor p = .missing := by
  obtain ⟨hpending, hnix, hcertain, habsent, hcomplete, hkey⟩ := presenceOf_missing h
  obtain ⟨hentries, hcomplete⟩ := hdegrades.entries_eq hcomplete
  have hpresent : seen.present = inventory.present := by rw [Inventory.present, Inventory.present, hentries]
  exact presenceOf_of_missing hpending hnix hcertain (hpresent ▸ habsent) hcomplete hkey

theorem countedAs_degrades (hdegrades : inventory.Degrades seen) :
    (countedAs lower identity catalogs dedupKeys seen uncertain repo keyFor p = .missing →
      countedAs lower identity catalogs dedupKeys inventory uncertain repo keyFor p = .missing) ∧
    (countedAs lower identity catalogs dedupKeys seen uncertain repo keyFor p = .cached →
      countedAs lower identity catalogs dedupKeys inventory uncertain repo keyFor p = .cached) := by
  unfold countedAs
  split
  · exact ⟨fun h => (nomatch h), fun h => (nomatch h)⟩
  · exact ⟨presenceOf_missing_degrades hdegrades, presenceOf_cached hdegrades⟩

/-! ## Counting -/

/-- A row counts packages on top of another one. -/
structure CompletenessRow.Counts (row row' : CompletenessRow π) (presence : Str × Str → Presence) (packages : List (Str × Str)) :
    Prop where
  repoId : row'.repoId = row.repoId
  total : row'.totalPackages = row.totalPackages
  percent : row'.percent = row.percent
  state : row'.state = row.state
  cached : row'.cachedPackages = row.cachedPackages + packages.countP fun p => presence p = .cached
  missing : row'.missingPackages = row.missingPackages + packages.countP fun p => presence p = .missing
  unknown : row'.unknownPackages = row.unknownPackages + packages.countP fun p => presence p = .unknown

/-- **The counters of a row** are numbers of packages. -/
theorem foldl_count (presence : Str × Str → Presence) : ∀ (packages : List (Str × Str)) (row : CompletenessRow π),
    row.Counts (packages.foldl (fun row p => row.count (presence p)) row) presence packages
  | [], row => ⟨rfl, rfl, rfl, rfl, rfl, rfl, rfl⟩
  | p :: packages, row => by
    have ih := foldl_count presence packages (row.count (presence p))
    rw [List.foldl_cons]
    refine ⟨ih.repoId.trans ?_, ih.total.trans ?_, ih.percent.trans ?_, ih.state.trans ?_, ih.cached.trans ?_,
      ih.missing.trans ?_,
      ih.unknown.trans ?_⟩
    all_goals cases h : presence p <;> simp [CompletenessRow.count, h, Nat.add_assoc, Nat.add_comm]

theorem countP_presence (presence : Str × Str → Presence) : ∀ packages : List (Str × Str),
    (packages.countP fun p => presence p = .cached) + (packages.countP fun p => presence p = .missing) +
      (packages.countP fun p => presence p = .unknown) = packages.length
  | [] => rfl
  | p :: packages => by
    have ih := countP_presence presence packages
    simp only [List.countP_cons, List.length_cons]
    cases h : presence p <;> simp <;> omega

theorem conclude_counts (percentOf : Nat → Nat → π) (row : CompletenessRow π) (total : Nat) :
    (conclude percentOf row total).repoId = row.repoId ∧ (conclude percentOf row total).totalPackages = row.totalPackages ∧
      (conclude percentOf row total).cachedPackages = row.cachedPackages ∧
      (conclude percentOf row total).missingPackages = row.missingPackages ∧
      (conclude percentOf row total).unknownPackages = row.unknownPackages := by
  unfold conclude
  split
  · exact ⟨rfl, rfl, rfl, rfl, rfl⟩
  · split <;> exact ⟨rfl, rfl, rfl, rfl, rfl⟩

theorem conclude_settled {percentOf : Nat → Nat → π} {row : CompletenessRow π} {total : Nat} (hpercent : row.percent = none)
    (hstate : row.state = .unknown)
    (h : (conclude percentOf row total).percent.isSome = true ∨ (conclude percentOf row total).state = .complete ∨
      (conclude percentOf row total).state = .partly) : (conclude percentOf row total).unknownPackages = 0 := by
  rw [(conclude_counts percentOf row total).2.2.2.2]
  unfold conclude at h
  split at h
  · rw [hpercent, hstate] at h
    simp at h
  · rename_i hzero
    exact not_not.1 hzero

theorem summarizeRepo_sound (hkeyFor : builder.forRepo repo = .ok keyFor) :
    ∃ row, summarizeRepo lower identity percentOf catalogs builder dedupKeys inventory uncertain repo = .ok row ∧
      RowSound lower identity catalogs dedupKeys inventory uncertain repo keyFor row := by
  unfold summarizeRepo
  dsimp only
  cases hchecked : known (catalogs repo.id).lastCheck with
  | false =>
    refine ⟨_, rfl, rfl, fun h => ?_, ?_, ?_, fun h => rfl⟩
    · rw [hchecked] at h
      cases h
    · simp [countedAs, hchecked]
    · simp [countedAs, hchecked]
  | true =>
    cases hsource : outdated identity catalogs repo with
    | true =>
      refine ⟨_, rfl, rfl, fun _ => ⟨by simp, rfl⟩, ?_, ?_, fun h => ?_⟩
      · simp [countedAs, hsource]
      · simp [countedAs, hsource]
      · simp at h
    | false =>
      have hcounted : ∀ p, countedAs lower identity catalogs dedupKeys inventory uncertain repo keyFor p =
          presenceOf lower catalogs dedupKeys inventory uncertain repo keyFor p := fun p => by
        simp [countedAs, hchecked, hsource]
      let row : CompletenessRow π := { repoId := repo.id, totalPackages := some (catalogs repo.id).packages.length,
                                       lastCheck := (catalogs repo.id).lastCheck }
      have hcounts := foldl_count (presenceOf lower catalogs dedupKeys inventory uncertain repo keyFor)
        (catalogs repo.id).packages row
      have hlength := countP_presence (presenceOf lower catalogs dedupKeys inventory uncertain repo keyFor)
        (catalogs repo.id).packages
      refine ⟨_, by rw [hkeyFor]; rfl, ?_⟩
      generalize (catalogs repo.id).packages.foldl _ _ = row' at hcounts ⊢
      obtain ⟨hid, htotal, hcached, hmissing, hunknown⟩ := conclude_counts percentOf row' (catalogs repo.id).packages.length
      refine ⟨hid.trans hcounts.repoId, fun _ => ⟨?_, htotal.trans hcounts.total⟩, ?_, ?_,
        fun h => conclude_settled hcounts.percent hcounts.state h⟩
      · rw [htotal, hcounts.total, hcached, hmissing, hunknown, hcounts.cached, hcounts.missing, hcounts.unknown]
        simp only [row, Nat.zero_add, hlength]
      · simp only [hcounted]
        rw [hcached, hcounts.cached, Nat.zero_add]
      · simp only [hcounted]
        rw [hmissing, hcounts.missing, Nat.zero_add]

/-! ## Evidence -/

theorem mem_uncertainKeys (h : uncertainKeys lower identity config catalogs builder dedupKeys = .ok uncertain)
    (hrepo : repo ∈ config.repos) (hkeyFor : builder.forRepo repo = .ok keyFor) {key : Str}
    (hkey : key ∈ uncertainOf lower identity catalogs dedupKeys repo keyFor) : key ∈ uncertain := by
  obtain ⟨lists, hlists, h⟩ := Lib.bind_eq_ok.1 h
  cases h
  obtain ⟨list, hlist, hrun⟩ := (Lib.mem_of_mapM_eq_ok hlists).2 repo hrepo
  obtain ⟨keyFor', hkeyFor', hrun⟩ := Lib.bind_eq_ok.1 hrun
  rw [hkeyFor] at hkeyFor'
  cases hkeyFor'
  cases hrun
  exact List.mem_flatten.2 ⟨_, hlist, hkey⟩

theorem provenMissing (huncertain : uncertainKeys lower identity config catalogs builder dedupKeys = .ok uncertain)
    (h : countedAs lower identity catalogs dedupKeys inventory uncertain repo keyFor p = .missing) :
    ProvenMissing lower identity config catalogs builder dedupKeys inventory repo keyFor p := by
  unfold countedAs at h
  split at h
  · cases h
  · obtain ⟨-, -, hcertain, habsent, hcomplete, hkey⟩ := presenceOf_missing h
    obtain ⟨hfailed, hreadable⟩ := incomplete_eq_false.1 hcomplete
    refine ⟨hfailed, hreadable, hkey, fun e he heq => habsent (mem_present.2 ⟨e, he, (hreadable e he).2, heq, hkey⟩), ?_⟩
    intro other hother keyFor' hkeyFor' q hq hdoubt
    have hmem : ∀ key ∈ [keyFor'.key q.2, effectiveKey lower dedupKeys other keyFor' q.2], key ∈ uncertain := by
      intro key hkey
      refine mem_uncertainKeys huncertain hother hkeyFor' (List.mem_flatMap.2 ⟨q, List.mem_filter.2 ⟨hq, ?_⟩, hkey⟩)
      rw [Bool.or_eq_true, List.contains_iff_mem]
      exact hdoubt
    constructor
    · exact fun heq => hcertain (heq ▸ hmem _ List.mem_cons_self)
    · exact fun heq => hcertain (heq ▸ hmem _ (List.mem_cons_of_mem _ List.mem_cons_self))

theorem summarize_sound (h : CacheKeyBuilder.new config = .ok builder)
    (huncertain : uncertainKeys lower identity config catalogs builder dedupKeys = .ok uncertain) (inventory : Inventory) :
    ∃ rows, summarize lower identity percentOf config catalogs builder dedupKeys inventory = .ok rows ∧
      List.Forall₂ (fun repo row => ∃ keyFor, builder.forRepo repo = .ok keyFor ∧
        RowSound lower identity catalogs dedupKeys inventory uncertain repo keyFor row) config.repos rows := by
  have hall : ∀ repo ∈ config.repos, ∃ row : CompletenessRow π,
      summarizeRepo lower identity percentOf catalogs builder dedupKeys inventory uncertain repo = .ok row ∧
      ∃ keyFor, builder.forRepo repo = .ok keyFor ∧
        RowSound lower identity catalogs dedupKeys inventory uncertain repo keyFor row := by
    intro repo hrepo
    obtain ⟨keyFor, -, hkeyFor, -⟩ := CacheKeyBuilder.forRepo_ok (accepted_of_new h) hrepo
    obtain ⟨row, hrow, hsound⟩ := summarizeRepo_sound hkeyFor
    exact ⟨row, hrow, keyFor, hkeyFor, hsound⟩
  obtain ⟨rows, hrows, hsound⟩ := Lib.mapM_forall₂ hall
  refine ⟨rows, ?_, hsound⟩
  unfold summarize
  rw [huncertain]
  exact hrows

/-- **The report claims no more than the evidence.** -/
theorem completeness_evidence (lower : Str → Str) (identity : RepoConfig → Str) (percentOf : Nat → Nat → π)
    (h : CacheKeyBuilder.new config = .ok builder) (catalogs : Str → Catalog) (dedupKeys : Dict Str Str) :
    ∃ uncertain, uncertainKeys lower identity config catalogs builder dedupKeys = .ok uncertain ∧ ∀ inventory : Inventory,
      (∃ rows, summarize lower identity percentOf config catalogs builder dedupKeys inventory = .ok rows ∧
        List.Forall₂ (fun repo row => ∃ keyFor, builder.forRepo repo = .ok keyFor ∧
          RowSound lower identity catalogs dedupKeys inventory uncertain repo keyFor row) config.repos rows) ∧
      (∀ repo keyFor p, countedAs lower identity catalogs dedupKeys inventory uncertain repo keyFor p = .missing →
        ProvenMissing lower identity config catalogs builder dedupKeys inventory repo keyFor p) ∧
      ∀ seen, inventory.Degrades seen → ∀ repo keyFor p,
        (countedAs lower identity catalogs dedupKeys seen uncertain repo keyFor p = .missing →
          countedAs lower identity catalogs dedupKeys inventory uncertain repo keyFor p = .missing) ∧
        (countedAs lower identity catalogs dedupKeys seen uncertain repo keyFor p = .cached →
          countedAs lower identity catalogs dedupKeys inventory uncertain repo keyFor p = .cached) := by
  have hbound : ∀ repo ∈ config.repos, ∃ keys, (do
      return uncertainOf lower identity catalogs dedupKeys repo (← builder.forRepo repo) : Except Error (List Str)) =
        .ok keys := by
    intro repo hrepo
    obtain ⟨keyFor, -, hkeyFor, -⟩ := CacheKeyBuilder.forRepo_ok (accepted_of_new h) hrepo
    rw [hkeyFor]
    exact ⟨_, rfl⟩
  obtain ⟨lists, hlists⟩ := Lib.mapM_ok hbound
  have huncertain : uncertainKeys lower identity config catalogs builder dedupKeys = .ok lists.flatten := by
    unfold uncertainKeys
    rw [hlists]
    rfl
  exact ⟨_, huncertain, fun inventory => ⟨summarize_sound h huncertain inventory, fun _ _ _ => provenMissing huncertain,
    fun _ hdegrades _ _ _ => countedAs_degrades hdegrades⟩⟩

end Sound

/-- What the catalog of a repository is checked by. -/
def nestedIdentity (repo : RepoConfig) : Str := repo.id

/-- Two packages of the repository `a`, and one of the other. -/
def nestedCatalogs (repoId : Str) : Catalog where
  lastCheck := some "2026-01-02T03:04:05+00:00".toList
  sourceIdentity := some repoId
  packages := if repoId = ['a'] then [(['x'], "x.deb".toList), (['y'], "y.deb".toList)] else [(['z'], "z.deb".toList)]
  pending := []
  artifacts _ := []

/-- A scan of two leaves with a package in each. -/
def fullScan : Inventory :=
  ⟨[⟨"0/00".toList, "f".toList, some "httph/foo/x.deb".toList, some 10, none⟩,
    ⟨"1/11".toList, "g".toList, some "httpi/purge/foo/z.deb".toList, some 20, none⟩], 0⟩

/-- The same cache when the second leaf cannot be read. -/
def partialScan : Inventory := ⟨[⟨"0/00".toList, "f".toList, some "httph/foo/x.deb".toList, some 10, none⟩], 1⟩

theorem partialScan_degrades : fullScan.Degrades partialScan where
  entries := List.cons_subset_cons _ (List.nil_subset _)
  failed := Nat.zero_le 1
  marked := .inr Nat.one_pos

/-- The counts of the packages that are cached, missing and unknown. -/
def CompletenessRow.counts {π : Type} (row : CompletenessRow π) : Nat × Nat × Nat :=
  (row.cachedPackages, row.missingPackages, row.unknownPackages)

/-- A full scan finds one package missing; where a leaf cannot be read, that package and the leaf's own are unknown. -/
theorem completeness_evidence_nested : ∃ builder rows rows', CacheKeyBuilder.new nestedConfig = .ok builder ∧
    summarize id nestedIdentity Prod.mk nestedConfig nestedCatalogs builder .empty fullScan = .ok rows ∧
    rows.map CompletenessRow.counts = [(1, 1, 0), (1, 0, 0)] ∧
    summarize id nestedIdentity Prod.mk nestedConfig nestedCatalogs builder .empty partialScan = .ok rows' ∧
    rows'.map CompletenessRow.counts = [(1, 0, 1), (0, 0, 1)] ∧
    ∀ uncertain, uncertainKeys id nestedIdentity nestedConfig nestedCatalogs builder .empty = .ok uncertain →
      ∀ repo keyFor p, countedAs id nestedIdentity nestedCatalogs .empty partialScan uncertain repo keyFor p = .cached →
        countedAs id nestedIdentity nestedCatalogs .empty fullScan uncertain repo keyFor p = .cached := by
  have hcounts : (CacheKeyBuilder.new nestedConfig).toOption.map (fun builder => [fullScan, partialScan].map fun inventory =>
      (summarize id nestedIdentity Prod.mk nestedConfig nestedCatalogs builder .empty inventory).toOption.map
        (List.map CompletenessRow.counts)) =
      some [some [(1, 1, 0), (1, 0, 0)], some [(1, 0, 1), (0, 0, 1)]] := by decide +kernel
  obtain ⟨builder, h⟩ := nestedConfig_ok
  obtain ⟨uncertain, huncertain, hreport⟩ := completeness_evidence id nestedIdentity Prod.mk h nestedCatalogs .empty
  obtain ⟨⟨rows, hrows, -⟩, -, hdegrades⟩ := hreport fullScan
  obtain ⟨⟨rows', hrows', -⟩, -, -⟩ := hreport partialScan
  rw [h] at hcounts
  simp only [Except.toOption, Option.map_some, List.map_cons, List.map_nil, hrows, hrows', Option.some.injEq, List.cons.injEq,
    and_true] at hcounts
  refine ⟨builder, rows, rows', h, hrows, hcounts.1, hrows', hcounts.2, fun uncertain' huncertain' repo keyFor p => ?_⟩
  obtain rfl : uncertain = uncertain' := Except.ok.inj (huncertain.symm.trans huncertain')
  exact (hdegrades _ partialScan_degrades repo keyFor p).2

end RepoWatch
