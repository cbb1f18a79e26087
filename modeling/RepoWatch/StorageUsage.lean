import Mathlib.Data.List.Find
import Mathlib.Order.Lattice.Nat
import RepoWatch.Completeness
import RepoWatch.Lib.Ledger
import RepoWatch.Lib.Ranking
/-!
# StorageUsage — whose the bytes of the cache are

Each file of the scan is charged to one repository, the first by id that lists it under a key of either basis, or to none.
So the bytes of all repositories and the unattributed ones are the bytes of the scan, and the same over the groups.  What a
repository can be served is a set of keys; a group's is the union.  No order of the inputs shows (`storage_usage_conserves`).
-/
namespace RepoWatch

open Lib Lib.Ranking

/-! ## The report -/

/-- What `catalog_snapshot` reads of one repository with its warm records. -/
structure UsageCatalog where
  lastCheck : Option Str
  sourceIdentity : Option Str
  packages : List (Str × Str)
  artifacts : Dict Str (List Str)
  warmed : List Str := []

/-- The row of a repository. -/
structure UsageRow where
  repoId : Str
  group : Option Str
  physicalBytes : Nat := 0
  physicalFiles : Nat := 0
  availableBytes : Nat := 0
  availableFiles : Nat := 0
  reason : Option CompletenessReason
  deriving DecidableEq

/-- The row of a group. -/
structure UsageGroup where
  group : Option Str
  physicalBytes : Nat := 0
  physicalFiles : Nat := 0
  availableBytes : Nat := 0
  availableFiles : Nat := 0
  unknownRepositories : Nat := 0
  deriving DecidableEq

structure UsageReport where
  totalBytes : Nat
  fileCount : Nat
  attributedBytes : Nat
  unattributedBytes : Nat
  unattributedFiles : Nat
  unreadableSizes : Nat
  unreadableKeys : Nat
  failedLeaves : Nat
  inventoryComplete : Bool
  repositories : List UsageRow
  groups : List UsageGroup
  deriving DecidableEq

/-- Where the loop over the repositories stands. -/
structure Owned where
  owners : Dict Str Str
  accessible : Dict Str (Finset Str)
  items : Dict Str UsageRow
  groups : Dict (Option Str) UsageGroup

/-- Where the loop over the entries stands. -/
structure Measured where
  totalBytes : Nat := 0
  unattributedBytes : Nat := 0
  unattributedFiles : Nat := 0
  unreadableSizes : Nat := 0
  fileSizes : Dict Str Nat := .empty
  items : Dict Str UsageRow

/-- Where the last loop over the repositories stands. -/
structure Totals where
  items : Dict Str UsageRow
  groups : Dict (Option Str) UsageGroup
  groupKeys : Dict (Option Str) (Finset Str)

namespace ScanEntry
variable (entry : ScanEntry)

/-- `type(entry.size) is int and entry.size >= 0`. -/
def readableSize : Bool := entry.size.any (0 ≤ ·)

/-- The size, of an entry with a readable one. -/
def bytes : Nat := if entry.readableSize then (entry.size.getD 0).toNat else 0

/-- The key, of an entry that has one and no error. -/
def presentKey : Option Str := if known entry.error then none else entry.key.filter (· ≠ [])

end ScanEntry

/-- The files that are recorded of a repository, in order, and whether each counts as available. -/
def usageFiles (repo : RepoConfig) (catalog : UsageCatalog) : List (Str × Bool) :=
  (catalog.packages.flatMap fun p => (p.2, true) ::
    if repo.type = .nix then ((catalog.artifacts.lookup p.1).getD []).map fun f => (f, true) else []) ++
  catalog.warmed.map (fun f => (f, false)) ++
  catalog.artifacts.rows.flatMap fun row => row.2.map fun f => (f, false)

section Usage
variable (lower : Str → Str) (identity : RepoConfig → Str) (config : Config) (catalogs : Str → UsageCatalog)
  (inventory : Inventory) (builder : CacheKeyBuilder) (dedupKeys : Dict Str Str)

def usageReason (repo : RepoConfig) : Option CompletenessReason :=
  if !known (catalogs repo.id).lastCheck then some .noSnapshot
  else if (catalogs repo.id).sourceIdentity != some (identity repo) then some .sourceChanged
  else none

/-- `record`: own the keys of a file under both bases, and make an available one accessible under its effective key. -/
def Owned.record (repo : RepoConfig) (keyFor : BoundKey) (s : Owned) (file : Str × Bool) : Owned :=
  let direct := keyFor.key file.1
  let previous := keyFor.key file.1 (some !config.nginx.enableDedup)
  let owners := [direct, previous].foldl
    (fun owners key => if inventory.present.contains key then owners.setdefault key repo.id else owners) s.owners
  let key := effectiveKey lower dedupKeys repo keyFor file.1
  let accessible :=
    if file.2 && key != [] && inventory.present.contains key then s.accessible.modify repo.id (insert key) else s.accessible
  { s with owners, accessible }

/-- One round of the loop over the repositories. -/
def Owned.visit (s : Owned) (repo : RepoConfig) : Except Error Owned :=
  let reason := usageReason identity catalogs repo
  let s : Owned :=
    { s with
      items := s.items.set repo.id { repoId := repo.id, group := repo.group, reason }
      accessible := s.accessible.set repo.id ∅
      groups := s.groups.setdefault repo.group { group := repo.group } }
  if reason.isSome then
    .ok { s with groups := s.groups.modify repo.group fun g => { g with unknownRepositories := g.unknownRepositories + 1 } }
  else do
    let keyFor ← builder.forRepo repo
    return (usageFiles repo (catalogs repo.id)).foldl (Owned.record lower config inventory dedupKeys repo keyFor) s

/-- One round of the loop over the entries. -/
def Measured.add (owners : Dict Str Str) (m : Measured) (entry : ScanEntry) : Measured :=
  let size := entry.bytes
  let m : Measured :=
    { m with
      unreadableSizes := m.unreadableSizes + if entry.readableSize then 0 else 1
      totalBytes := m.totalBytes + size }
  let m : Measured :=
    match entry.presentKey.bind owners.lookup with
    | none => { m with unattributedBytes := m.unattributedBytes + size, unattributedFiles := m.unattributedFiles + 1 }
    | some owner =>
      { m with
        items := m.items.modify owner fun row =>
          { row with physicalBytes := row.physicalBytes + size, physicalFiles := row.physicalFiles + 1 } }
  match entry.presentKey with
  | none => m
  -- A key that the scan lists repeatedly is accessible once, under its largest size.
  | some key => { m with fileSizes := m.fileSizes.set key (max ((m.fileSizes.lookup key).getD 0) size) }

/-- `sum(file_sizes[key] for key in keys)`. -/
def sizeOfKeys (fileSizes : Dict Str Nat) (keys : Finset Str) : Nat := ∑ key ∈ keys, (fileSizes.lookup key).getD 0

/-- One round of the last loop; the row of the repository is always there. -/
def Totals.add (accessible : Dict Str (Finset Str)) (fileSizes : Dict Str Nat) (t : Totals) (repo : RepoConfig) : Totals :=
  let keys := (accessible.lookup repo.id).getD ∅ ∩ fileSizes.keys.toFinset
  let items := t.items.modify repo.id fun row =>
    { row with availableBytes := sizeOfKeys fileSizes keys, availableFiles := keys.card }
  match items.lookup repo.id with
  | none => { t with items }
  | some row =>
    { items
      groups := t.groups.modify repo.group fun g =>
        { g with physicalBytes := g.physicalBytes + row.physicalBytes, physicalFiles := g.physicalFiles + row.physicalFiles }
      groupKeys := t.groupKeys.modify repo.group (· ∪ keys) }

/-- A group whose members reach some keys. -/
def UsageGroup.reached (fileSizes : Dict Str Nat) (keys : Finset Str) (g : UsageGroup) : UsageGroup :=
  { g with availableBytes := sizeOfKeys fileSizes keys, availableFiles := keys.card }

def setAvailable (fileSizes : Dict Str Nat) (groups : Dict (Option Str) UsageGroup) (row : Option Str × Finset Str) :
    Dict (Option Str) UsageGroup := groups.modify row.1 (UsageGroup.reached fileSizes row.2)

/-- `storage_usage`. -/
def storageUsage : Except Error UsageReport := do
  let owned ← (ranked (fun repo : RepoConfig => repo.id) config.repos).foldlM
    (Owned.visit lower identity config catalogs inventory builder dedupKeys) ⟨.empty, .empty, .empty, .empty⟩
  let measured := inventory.entries.foldl (Measured.add owned.owners) { items := owned.items }
  let totals := config.repos.foldl (Totals.add owned.accessible measured.fileSizes)
    ⟨measured.items, owned.groups, .ofPairs (owned.groups.keys.map fun group => (group, ∅))⟩
  let groups := totals.groupKeys.rows.foldl (setAvailable measured.fileSizes) totals.groups
  let unreadableKeys := inventory.entries.countP fun entry => !known entry.key || known entry.error
  return {
    totalBytes := measured.totalBytes
    fileCount := inventory.entries.length
    attributedBytes := measured.totalBytes - measured.unattributedBytes
    unattributedBytes := measured.unattributedBytes
    unattributedFiles := measured.unattributedFiles
    unreadableSizes := measured.unreadableSizes
    unreadableKeys
    failedLeaves := inventory.failedLeaves
    inventoryComplete := inventory.failedLeaves == 0 && measured.unreadableSizes == 0 && unreadableKeys == 0
    repositories := config.repos.filterMap fun repo => totals.items.lookup repo.id
    groups := groups.rows.map Prod.snd }

end Usage

/-! ## What the figures are -/

/-- What a report is made from. -/
structure UsageInput where
  lower : Str → Str
  identity : RepoConfig → Str
  config : Config
  catalogs : Str → UsageCatalog
  inventory : Inventory
  builder : CacheKeyBuilder
  dedupKeys : Dict Str Str

namespace UsageInput
variable (u : UsageInput)

def run : Except Error UsageReport :=
  storageUsage u.lower u.identity u.config u.catalogs u.inventory u.builder u.dedupKeys

def files (repo : RepoConfig) : List (Str × Bool) := usageFiles repo (u.catalogs repo.id)

def reason (repo : RepoConfig) : Option CompletenessReason := usageReason u.identity u.catalogs repo

/-- The keys of files under the basis in use and under the other one. -/
def keysOf (keyFor : BoundKey) (files : List (Str × Bool)) : List Str :=
  files.flatMap fun f => [keyFor.key f.1, keyFor.key f.1 (some !u.config.nginx.enableDedup)]

/-- The present keys that the available ones of files are answered from. -/
def reach (repo : RepoConfig) (keyFor : BoundKey) (files : List (Str × Bool)) : Finset Str :=
  ((files.filter Prod.snd).map fun f => effectiveKey u.lower u.dedupKeys repo keyFor f.1).toFinset.filter
    fun key => key ∈ u.inventory.present

/-- A repository with a usable snapshot lists a file under a key. -/
def claims (repo : RepoConfig) (key : Str) : Bool :=
  match u.reason repo, u.builder.forRepo repo with
  | none, .ok keyFor => (u.keysOf keyFor (u.files repo)).contains key
  | _, _ => false

/-- The present keys that a repository with a usable snapshot can be served. -/
def accessibleKeys (repo : RepoConfig) : Finset Str :=
  match u.reason repo, u.builder.forRepo repo with
  | none, .ok keyFor => u.reach repo keyFor (u.files repo)
  | _, _ => ∅

/-- The first repository by id that claims a key. -/
def ownerOf (key : Str) : Option Str :=
  ((ranked (fun repo : RepoConfig => repo.id) u.config.repos).find? (u.claims · key)).map fun repo => repo.id

/-- The repository that a file of the scan is charged to. -/
def accountOf (entry : ScanEntry) : Option Str := entry.presentKey.bind u.ownerOf

/-- The largest size that a key is listed with. -/
def keySize (entries : List ScanEntry) (key : Str) : Nat :=
  (entries.toFinset.filter fun entry => entry.presentKey = some key).sup ScanEntry.bytes

def weigh (keys : Finset Str) : Nat := ∑ key ∈ keys, keySize u.inventory.entries key

def usageRow (repo : RepoConfig) : UsageRow where
  repoId := repo.id
  group := repo.group
  physicalBytes := charged u.accountOf ScanEntry.bytes u.inventory.entries (some repo.id)
  physicalFiles := charged u.accountOf (fun _ => 1) u.inventory.entries (some repo.id)
  availableBytes := u.weigh (u.accessibleKeys repo)
  availableFiles := (u.accessibleKeys repo).card
  reason := u.reason repo

def members (group : Option Str) : List RepoConfig := u.config.repos.filter fun repo => decide (repo.group = group)

def groupKeys (group : Option Str) : Finset Str := (u.members group).toFinset.biUnion u.accessibleKeys

def usageGroup (group : Option Str) : UsageGroup where
  group := group
  physicalBytes := ((u.members group).map fun repo => (u.usageRow repo).physicalBytes).sum
  physicalFiles := ((u.members group).map fun repo => (u.usageRow repo).physicalFiles).sum
  availableBytes := u.weigh (u.groupKeys group)
  availableFiles := (u.groupKeys group).card
  unknownRepositories := (u.members group).countP fun repo => (u.reason repo).isSome

def groups : List (Option Str) :=
  Dict.firstSeen ((ranked (fun repo : RepoConfig => repo.id) u.config.repos).map fun repo => repo.group)

def report : UsageReport :=
  let unreadableSizes := u.inventory.entries.countP fun entry => !entry.readableSize
  let unreadableKeys := u.inventory.entries.countP fun entry => !known entry.key || known entry.error
  { totalBytes := (u.inventory.entries.map ScanEntry.bytes).sum
    fileCount := u.inventory.entries.length
    attributedBytes := (u.inventory.entries.map ScanEntry.bytes).sum -
      charged u.accountOf ScanEntry.bytes u.inventory.entries none
    unattributedBytes := charged u.accountOf ScanEntry.bytes u.inventory.entries none
    unattributedFiles := charged u.accountOf (fun _ => 1) u.inventory.entries none
    unreadableSizes
    unreadableKeys
    failedLeaves := u.inventory.failedLeaves
    inventoryComplete := u.inventory.failedLeaves == 0 && unreadableSizes == 0 && unreadableKeys == 0
    repositories := u.config.repos.map u.usageRow
    groups := u.groups.map u.usageGroup }

/-! ## The loop over the repositories -/

variable {u} {repo : RepoConfig} {keyFor : BoundKey} {files : List (Str × Bool)} {s s' : Owned}

/-- What recording files of a repository has changed. -/
structure Recorded (u : UsageInput) (repo : RepoConfig) (keyFor : BoundKey) (s : Owned) (files : List (Str × Bool)) (s' : Owned) :
    Prop where
  owners : ∀ key, s'.owners.lookup key =
    (s.owners.lookup key).or (if key ∈ u.inventory.present ∧ key ∈ u.keysOf keyFor files then some repo.id else none)
  accessible : ∀ id, s'.accessible.lookup id =
    if id = repo.id then (s.accessible.lookup id).map (· ∪ u.reach repo keyFor files) else s.accessible.lookup id
  items : s'.items = s.items
  groups : s'.groups = s.groups

theorem keysOf_append (files files' : List (Str × Bool)) :
    u.keysOf keyFor (files ++ files') = u.keysOf keyFor files ++ u.keysOf keyFor files' := List.flatMap_append

/-- Keys that are present are owned, but for those that have an owner. -/
theorem lookup_own (present keys : List Str) (id : Str) : ∀ (owners : Dict Str Str) (key : Str),
    (keys.foldl (fun owners k => if present.contains k then owners.setdefault k id else owners) owners).lookup key =
      (owners.lookup key).or (if key ∈ present ∧ key ∈ keys then some id else none) := by
  induction keys with
  | nil => exact fun owners key => by simp
  | cons k keys ih =>
    intro owners key
    rw [List.foldl_cons, ih]
    by_cases hkey : key = k
    · subst hkey
      by_cases hk : key ∈ present
      · rw [if_pos (List.contains_iff_mem.2 hk), Dict.lookup_setdefault, if_pos rfl,
          if_pos (c := key ∈ present ∧ key ∈ key :: keys) ⟨hk, List.mem_cons_self⟩]
        cases owners.lookup key <;> rfl
      · rw [if_neg fun h => hk (List.contains_iff_mem.1 h), if_neg fun h => hk h.1, if_neg fun h => hk h.1]
    · have hmem : key ∈ present ∧ key ∈ k :: keys ↔ key ∈ present ∧ key ∈ keys := by rw [List.mem_cons, or_iff_right hkey]
      rw [if_congr hmem rfl rfl]
      split
      · rw [Dict.lookup_setdefault, if_neg hkey]
      · rfl

theorem if_or_if {p q r : Prop} [Decidable p] [Decidable q] [Decidable r] (id : Str) :
    (if p ∧ q then some id else none).or (if p ∧ r then some id else none) = if p ∧ (q ∨ r) then some id else none := by
  by_cases hp : p <;> by_cases hq : q <;> simp [hp, hq]

theorem reach_append (files files' : List (Str × Bool)) :
    u.reach repo keyFor (files ++ files') = u.reach repo keyFor files ∪ u.reach repo keyFor files' := by
  unfold reach
  rw [List.filter_append, List.map_append, List.toFinset_append, Finset.filter_union]

theorem recorded_nil (s : Owned) : u.Recorded repo keyFor s [] s where
  owners key := by simp [keysOf]
  accessible id := by
    have hnone : u.reach repo keyFor [] = ∅ := rfl
    split
    · simp [hnone]
    · rfl
  items := rfl
  groups := rfl

theorem reach_singleton (f : Str × Bool) : u.reach repo keyFor [f] =
    if f.2 && effectiveKey u.lower u.dedupKeys repo keyFor f.1 != [] &&
        u.inventory.present.contains (effectiveKey u.lower u.dedupKeys repo keyFor f.1)
      then {effectiveKey u.lower u.dedupKeys repo keyFor f.1} else ∅ := by
  unfold reach
  cases hf : f.2 with
  | false => simp [hf]
  | true =>
    rw [List.filter_cons_of_pos hf, List.filter_nil, List.map_cons, List.map_nil]
    generalize effectiveKey u.lower u.dedupKeys repo keyFor f.1 = key
    by_cases hkey : key ∈ u.inventory.present
    · obtain ⟨-, -, -, -, hne⟩ := mem_present.1 hkey
      simp [hkey, hne, Finset.filter_singleton]
    · simp [hkey, Finset.filter_singleton]

/-- **Recording one file** more. -/
theorem Recorded.record (h : u.Recorded repo keyFor s files s') (f : Str × Bool) :
    u.Recorded repo keyFor s (files ++ [f])
      (Owned.record u.lower u.config u.inventory u.dedupKeys repo keyFor s' f) where
  owners key := by
    have hown := lookup_own u.inventory.present (u.keysOf keyFor [f]) repo.id s'.owners key
    have hmem : (key ∈ u.inventory.present ∧ key ∈ u.keysOf keyFor (files ++ [f])) ↔
        key ∈ u.inventory.present ∧ (key ∈ u.keysOf keyFor files ∨ key ∈ u.keysOf keyFor [f]) := by
      rw [keysOf_append, List.mem_append]
    exact hown.trans (by rw [h.owners, Option.or_assoc, if_or_if, if_congr hmem rfl rfl])
  accessible id := by
    rw [reach_append, reach_singleton]
    unfold Owned.record
    dsimp only
    split
    · rw [Dict.lookup_modify, h.accessible]
      split
      · rw [Option.map_map]
        refine congrArg (Option.map · _) (funext fun keys => ?_)
        rw [Function.comp_apply, Finset.insert_eq, Finset.union_comm, Finset.union_assoc]
      · rfl
    · rw [h.accessible, Finset.union_empty]
  items := h.items
  groups := h.groups

theorem recorded_files (files : List (Str × Bool)) (s : Owned) : u.Recorded repo keyFor s files
    (files.foldl (Owned.record u.lower u.config u.inventory u.dedupKeys repo keyFor) s) :=
  foldl_inv (fun files s' => u.Recorded repo keyFor s files s') (recorded_nil s) (fun _ f _ h => h.record f) files

/-- What one round of the loop changes. -/
structure Entered (u : UsageInput) (repo : RepoConfig) (s s' : Owned) : Prop where
  owners : ∀ key, s'.owners.lookup key =
    (s.owners.lookup key).or (if key ∈ u.inventory.present ∧ u.claims repo key = true then some repo.id else none)
  accessible : ∀ id, s'.accessible.lookup id = if id = repo.id then some (u.accessibleKeys repo) else s.accessible.lookup id
  items : s'.items = s.items.set repo.id { repoId := repo.id, group := repo.group, reason := u.reason repo }
  groupKeys : ∃ groups, s'.groups.keys = (s.groups.setdefault repo.group groups).keys
  groups : ∀ group, s'.groups.lookup group = if group = repo.group then
      some (let g := (s.groups.lookup group).getD { group := repo.group }
        { g with unknownRepositories := g.unknownRepositories + if (u.reason repo).isSome then 1 else 0 })
    else s.groups.lookup group

/-- The round of a repository without a usable snapshot. -/
theorem visit_unusable (hreason : (u.reason repo).isSome = true) : ∃ s',
    Owned.visit u.lower u.identity u.config u.catalogs u.inventory u.builder u.dedupKeys s repo = .ok s' ∧
      u.Entered repo s s' := by
  have hclaims : ∀ key, u.claims repo key = false := fun key => by
    unfold claims
    split
    · rename_i hnone _
      rw [hnone] at hreason
      cases hreason
    · rfl
  have hkeys : u.accessibleKeys repo = ∅ := by
    unfold accessibleKeys
    split
    · rename_i hnone _
      rw [hnone] at hreason
      cases hreason
    · rfl
  refine ⟨_, if_pos hreason, ?_, ?_, rfl, ?_, ?_⟩
  · exact fun key => by simp [hclaims]
  · exact fun id => by simp [hkeys]
  · exact ⟨_, Dict.keys_modify _ _ _⟩
  · intro group
    rw [if_pos hreason]
    refine (Dict.lookup_modify _ _ _ _).trans ?_
    rw [Dict.lookup_setdefault]
    split <;> rfl

/-- The round of a repository with a usable snapshot. -/
theorem visit_usable (hreason : u.reason repo = none) (hkeyFor : u.builder.forRepo repo = .ok keyFor) : ∃ s',
    Owned.visit u.lower u.identity u.config u.catalogs u.inventory u.builder u.dedupKeys s repo = .ok s' ∧
      u.Entered repo s s' := by
  have hclaims : ∀ key, u.claims repo key = true ↔ key ∈ u.keysOf keyFor (u.files repo) := fun key => by
    unfold claims
    rw [hreason, hkeyFor]
    exact List.contains_iff_mem
  have hkeys : u.accessibleKeys repo = u.reach repo keyFor (u.files repo) := by
    unfold accessibleKeys
    rw [hreason, hkeyFor]
  obtain ⟨s₁, hs₁⟩ : ∃ s₁ : Owned, s₁ =
      { s with
        items := s.items.set repo.id { repoId := repo.id, group := repo.group, reason := u.reason repo }
        accessible := s.accessible.set repo.id ∅
        groups := s.groups.setdefault repo.group { group := repo.group } } := ⟨_, rfl⟩
  have hfiles : u.Recorded repo keyFor s₁ (u.files repo) _ := recorded_files (u.files repo) s₁
  refine ⟨_, ?_, ?_, ?_, hfiles.items.trans (by rw [hs₁]), ?_, ?_⟩
  · unfold Owned.visit
    rw [hkeyFor, hs₁]
    exact if_neg (by rw [show usageReason u.identity u.catalogs repo = none from hreason]; exact Bool.false_ne_true)
  · intro key
    have hiff : key ∈ u.inventory.present ∧ key ∈ u.keysOf keyFor (u.files repo) ↔
        key ∈ u.inventory.present ∧ u.claims repo key = true := by rw [hclaims]
    rw [hfiles.owners, hs₁, if_congr hiff rfl rfl]
  · intro id
    rw [hfiles.accessible, hs₁, hkeys]
    dsimp only
    rw [Dict.lookup_set]
    split
    · rw [Option.map_some, Finset.empty_union]
    · rfl
  · exact ⟨_, by rw [hfiles.groups, hs₁]⟩
  · intro group
    rw [hfiles.groups, hs₁, hreason]
    dsimp only
    rw [Dict.lookup_setdefault]
    split <;> rfl

/-- What the loop has established of the repositories it has visited. -/
structure Visited (u : UsageInput) (repos : List RepoConfig) (s : Owned) : Prop where
  owners : ∀ key, s.owners.lookup key =
    if key ∈ u.inventory.present then (repos.find? (u.claims · key)).map (fun repo => repo.id) else none
  accessible : ∀ repo ∈ repos, s.accessible.lookup repo.id = some (u.accessibleKeys repo)
  items : ∀ repo ∈ repos, s.items.lookup repo.id = some { repoId := repo.id, group := repo.group, reason := u.reason repo }
  groupKeys : s.groups.keys = Dict.firstSeen (repos.map fun repo => repo.group)
  groups : ∀ group ∈ s.groups.keys, s.groups.lookup group = some
    { group
      unknownRepositories := repos.countP fun repo => decide (repo.group = group) && (u.reason repo).isSome }

theorem visited_nil (u : UsageInput) : u.Visited [] ⟨.empty, .empty, .empty, .empty⟩ where
  owners _ := (ite_self _).symm
  accessible _ h := nomatch h
  items _ h := nomatch h
  groupKeys := rfl
  groups _ h := nomatch h

/-- **Visiting one repository** more, whose id is new. -/
theorem Visited.enter {repos : List RepoConfig} (h : u.Visited repos s) (hnew : ∀ r ∈ repos, r.id ≠ repo.id)
    (hs' : u.Entered repo s s') : u.Visited (repos ++ [repo]) s' where
  owners key := by
    rw [hs'.owners, h.owners, List.find?_append]
    by_cases hkey : key ∈ u.inventory.present
    · rw [if_pos hkey, if_pos hkey, if_congr (and_iff_right hkey) rfl rfl]
      cases (repos.find? (u.claims · key)) with
      | some r => rfl
      | none =>
        rw [List.find?_singleton]
        cases u.claims repo key <;> rfl
    · rw [if_neg hkey, if_neg hkey, if_neg fun hk => hkey hk.1]
      rfl
  accessible r hr := by
    rw [hs'.accessible]
    rcases List.mem_append.1 hr with hr | hr
    · rw [if_neg (hnew r hr), h.accessible r hr]
    · rw [List.mem_singleton.1 hr, if_pos rfl]
  items r hr := by
    rw [hs'.items, Dict.lookup_set]
    rcases List.mem_append.1 hr with hr | hr
    · rw [if_neg (hnew r hr), h.items r hr]
    · rw [List.mem_singleton.1 hr, if_pos rfl]
  groupKeys := by
    obtain ⟨group, hkeys⟩ := hs'.groupKeys
    rw [hkeys, List.map_append, List.map_singleton]
    by_cases hold : repo.group ∈ s.groups.keys
    · rw [Dict.keys_setdefault_of_mem hold, Dict.firstSeen_concat_of_mem (h.groupKeys ▸ hold), h.groupKeys]
    · rw [Dict.keys_setdefault_of_not_mem hold, Dict.firstSeen_concat_of_not_mem (h.groupKeys ▸ hold), h.groupKeys]
  groups group hgroup := by
    rw [hs'.groups, List.countP_append, List.countP_singleton]
    by_cases hg : group = repo.group
    · subst hg
      rw [if_pos rfl, decide_eq_true (p := repo.group = repo.group) rfl, Bool.true_and]
      by_cases hold : repo.group ∈ s.groups.keys
      · rw [h.groups _ hold]
        rfl
      · have hnone : ∀ r ∈ repos, ¬ (decide (r.group = repo.group) && (u.reason r).isSome) = true := fun r hr hand => by
          rw [h.groupKeys, Dict.mem_firstSeen] at hold
          rw [Bool.and_eq_true, decide_eq_true_eq] at hand
          exact hold (hand.1 ▸ List.mem_map_of_mem hr)
        rw [Dict.lookup_eq_none_iff.2 hold, List.countP_eq_zero.2 hnone]
        rfl
    · have hold : group ∈ s.groups.keys := by
        obtain ⟨g, hkeys⟩ := hs'.groupKeys
        rw [hkeys] at hgroup
        by_cases hold : repo.group ∈ s.groups.keys
        · rwa [Dict.keys_setdefault_of_mem hold] at hgroup
        · rw [Dict.keys_setdefault_of_not_mem hold] at hgroup
          exact (List.mem_append.1 hgroup).resolve_right fun hin => hg (List.mem_singleton.1 hin)
      rw [if_neg hg, h.groups group hold, decide_eq_false (Ne.symm hg)]
      rfl

/-- **The loop over the repositories** visits all of them. -/
theorem visited_all (haccepted : u.builder.routes.Accepted u.config) : ∃ s,
    (ranked (fun repo : RepoConfig => repo.id) u.config.repos).foldlM
      (Owned.visit u.lower u.identity u.config u.catalogs u.inventory u.builder u.dedupKeys)
        ⟨.empty, .empty, .empty, .empty⟩ = .ok s ∧
      u.Visited (ranked (fun repo : RepoConfig => repo.id) u.config.repos) s := by
  refine foldlM_ok (fun repos s => u.Visited repos s) (visited_nil u) fun pre repo post s hsplit hs => ?_
  have hlt : (ranked (fun repo : RepoConfig => repo.id) u.config.repos).Pairwise fun r r' => r.id < r'.id :=
    pairwise_ranked u.config.idsNodup
  have hin : repo ∈ ranked (fun repo : RepoConfig => repo.id) u.config.repos := by
    rw [hsplit]
    exact List.mem_append_right _ List.mem_cons_self
  rw [hsplit] at hlt
  have hnew : ∀ r ∈ pre, r.id ≠ repo.id := fun r hr => ((List.pairwise_append.1 hlt).2.2 r hr repo List.mem_cons_self).ne
  obtain ⟨keyFor, -, hkeyFor, -⟩ := CacheKeyBuilder.forRepo_ok haccepted ((perm_ranked _ _).mem_iff.1 hin)
  cases hreason : u.reason repo with
  | none =>
    obtain ⟨s', hvisit, hs'⟩ := visit_usable (s := s) hreason hkeyFor
    exact ⟨s', hvisit, hs.enter hnew hs'⟩
  | some _ =>
    obtain ⟨s', hvisit, hs'⟩ := visit_unusable (s := s) (by rw [hreason]; rfl)
    exact ⟨s', hvisit, hs.enter hnew hs'⟩

/-! ## The loop over the entries -/

/-- A row that entries have been charged to. -/
def charge (u : UsageInput) (entries : List ScanEntry) (row : UsageRow) (id : Str) : UsageRow :=
  { row with
    physicalBytes := row.physicalBytes + charged u.accountOf ScanEntry.bytes entries (some id)
    physicalFiles := row.physicalFiles + charged u.accountOf (fun _ => 1) entries (some id) }

/-- What the loop has established of the entries it has counted. -/
structure Counted (u : UsageInput) (items : Dict Str UsageRow) (entries : List ScanEntry) (m : Measured) : Prop where
  totalBytes : m.totalBytes = (entries.map ScanEntry.bytes).sum
  unattributedBytes : m.unattributedBytes = charged u.accountOf ScanEntry.bytes entries none
  unattributedFiles : m.unattributedFiles = charged u.accountOf (fun _ => 1) entries none
  unreadableSizes : m.unreadableSizes = entries.countP fun entry => !entry.readableSize
  fileSizes : ∀ key, m.fileSizes.lookup key =
    if key ∈ entries.filterMap ScanEntry.presentKey then some (keySize entries key) else none
  items : ∀ id, m.items.lookup id = (items.lookup id).map fun row => u.charge entries row id

theorem keySize_concat (entries : List ScanEntry) (entry : ScanEntry) (key : Str) :
    keySize (entries ++ [entry]) key =
      if entry.presentKey = some key then max (keySize entries key) entry.bytes else keySize entries key := by
  unfold keySize
  rw [List.toFinset_append, Finset.filter_union, Finset.sup_union, List.toFinset_cons, List.toFinset_nil,
    LawfulSingleton.insert_empty_eq, Finset.filter_singleton]
  split
  · rw [Finset.sup_singleton]
  · rw [Finset.sup_empty, max_bot_right]

theorem keySize_eq_zero {entries : List ScanEntry} {key : Str} (h : key ∉ entries.filterMap ScanEntry.presentKey) :
    keySize entries key = 0 := by
  unfold keySize
  rw [Finset.filter_eq_empty_iff.2 fun entry hentry hkey => h (List.mem_filterMap.2 ⟨entry, List.mem_toFinset.1 hentry, hkey⟩)]
  rfl

theorem counted_nil (u : UsageInput) (items : Dict Str UsageRow) : u.Counted items [] { items } where
  totalBytes := rfl
  unattributedBytes := rfl
  unattributedFiles := rfl
  unreadableSizes := rfl
  fileSizes _ := rfl
  items _ := Option.map_id'.symm

section Entry
variable (owners : Dict Str Str) (m : Measured) (entry : ScanEntry)

theorem add_totalBytes : (Measured.add owners m entry).totalBytes = m.totalBytes + entry.bytes := by
  unfold Measured.add
  dsimp only
  cases entry.presentKey.bind owners.lookup <;> cases entry.presentKey <;> rfl

theorem add_unreadableSizes :
    (Measured.add owners m entry).unreadableSizes = m.unreadableSizes + if entry.readableSize then 0 else 1 := by
  unfold Measured.add
  dsimp only
  cases entry.presentKey.bind owners.lookup <;> cases entry.presentKey <;> rfl

theorem add_unattributedBytes : (Measured.add owners m entry).unattributedBytes =
    m.unattributedBytes + if entry.presentKey.bind owners.lookup = none then entry.bytes else 0 := by
  unfold Measured.add
  dsimp only
  cases entry.presentKey.bind owners.lookup <;> cases entry.presentKey <;> rfl

theorem add_unattributedFiles : (Measured.add owners m entry).unattributedFiles =
    m.unattributedFiles + if entry.presentKey.bind owners.lookup = none then 1 else 0 := by
  unfold Measured.add
  dsimp only
  cases entry.presentKey.bind owners.lookup <;> cases entry.presentKey <;> rfl

theorem add_fileSizes (key : Str) : (Measured.add owners m entry).fileSizes.lookup key =
    if entry.presentKey = some key then some (max ((m.fileSizes.lookup key).getD 0) entry.bytes)
    else m.fileSizes.lookup key := by
  have hset : ∀ m' : Measured, m'.fileSizes = m.fileSizes → ∀ k,
      (m'.fileSizes.set k (max ((m'.fileSizes.lookup k).getD 0) entry.bytes)).lookup key =
        if some k = some key then some (max ((m.fileSizes.lookup key).getD 0) entry.bytes) else m.fileSizes.lookup key := by
    intro m' hm' k
    rw [Dict.lookup_set, hm']
    by_cases hk : key = k
    · rw [if_pos hk, hk, if_pos rfl]
    · rw [if_neg hk, if_neg fun e => hk (Option.some.inj e).symm]
  unfold Measured.add
  dsimp only
  cases entry.presentKey.bind owners.lookup <;> cases entry.presentKey
  · rfl
  · exact hset _ rfl _
  · rfl
  · exact hset _ rfl _

theorem add_items (id : Str) : (Measured.add owners m entry).items.lookup id =
    if entry.presentKey.bind owners.lookup = some id then (m.items.lookup id).map fun row =>
      { row with physicalBytes := row.physicalBytes + entry.bytes, physicalFiles := row.physicalFiles + 1 }
    else m.items.lookup id := by
  have hmodify : ∀ owner, (m.items.modify owner fun row =>
      { row with physicalBytes := row.physicalBytes + entry.bytes, physicalFiles := row.physicalFiles + 1 }).lookup id =
        if some owner = some id then (m.items.lookup id).map fun row =>
          { row with physicalBytes := row.physicalBytes + entry.bytes, physicalFiles := row.physicalFiles + 1 }
        else m.items.lookup id := by
    intro owner
    rw [Dict.lookup_modify]
    by_cases hid : id = owner
    · rw [if_pos hid, if_pos (congrArg some hid.symm)]
    · rw [if_neg hid, if_neg fun e => hid (Option.some.inj e).symm]
  unfold Measured.add
  dsimp only
  cases entry.presentKey.bind owners.lookup <;> cases entry.presentKey
  · rfl
  · rfl
  · exact hmodify _
  · exact hmodify _

end Entry

/-- **Counting one entry** more. -/
theorem Counted.add {items : Dict Str UsageRow} {owners : Dict Str Str} {entries : List ScanEntry} {m : Measured}
    {entry : ScanEntry} (h : u.Counted items entries m) (howner : entry.presentKey.bind owners.lookup = u.accountOf entry) :
    u.Counted items (entries ++ [entry]) (Measured.add owners m entry) where
  totalBytes := by rw [add_totalBytes, h.totalBytes, List.map_append, List.sum_append, List.map_singleton, List.sum_singleton]
  unattributedBytes := by rw [add_unattributedBytes, howner, h.unattributedBytes, charged_append, charged_singleton]
  unattributedFiles := by rw [add_unattributedFiles, howner, h.unattributedFiles, charged_append, charged_singleton]
  unreadableSizes := by
    rw [add_unreadableSizes, h.unreadableSizes, List.countP_append, List.countP_singleton]
    cases entry.readableSize <;> rfl
  fileSizes key := by
    rw [add_fileSizes, h.fileSizes, keySize_concat, List.filterMap_append]
    by_cases hkey : entry.presentKey = some key
    · have hnew : key ∈ entries.filterMap ScanEntry.presentKey ++ [entry].filterMap ScanEntry.presentKey :=
        List.mem_append_right _ (List.mem_filterMap.2 ⟨entry, List.mem_cons_self, hkey⟩)
      rw [if_pos hkey, if_pos hkey, if_pos hnew]
      split
      · rfl
      · rename_i hold
        rw [keySize_eq_zero hold]
        rfl
    · have hiff : key ∈ entries.filterMap ScanEntry.presentKey ++ [entry].filterMap ScanEntry.presentKey ↔
          key ∈ entries.filterMap ScanEntry.presentKey := by
        rw [List.mem_append, or_iff_left]
        intro hin
        obtain ⟨e, he, hek⟩ := List.mem_filterMap.1 hin
        rw [List.mem_singleton] at he
        exact hkey (he ▸ hek)
      rw [if_neg hkey, if_neg hkey, if_congr hiff rfl rfl]
  items id := by
    rw [add_items, howner, h.items]
    unfold charge
    rw [charged_append, charged_append, charged_singleton, charged_singleton]
    split
    · rw [Option.map_map]
      refine congrArg (Option.map · _) (funext fun row => ?_)
      simp only [Function.comp_apply, Nat.add_assoc]
    · rfl

theorem counted_all (items : Dict Str UsageRow) {owners : Dict Str Str}
    (howner : ∀ entry ∈ u.inventory.entries, entry.presentKey.bind owners.lookup = u.accountOf entry) :
    u.Counted items u.inventory.entries (u.inventory.entries.foldl (Measured.add owners) { items }) := by
  refine foldl_inv_on (fun entries m => u.Counted items entries m) (counted_nil u items) fun pre entry post m hsplit h => ?_
  exact h.add (howner entry (by rw [hsplit]; exact List.mem_append_right _ List.mem_cons_self))

/-! ## The last loop -/

/-- What the last loop has established of the repositories it has visited. -/
structure Totalled (u : UsageInput) (start : Dict (Option Str) UsageGroup) (repos : List RepoConfig) (t : Totals) : Prop where
  items : ∀ repo ∈ repos, t.items.lookup repo.id = some (u.usageRow repo)
  later : ∀ repo ∈ u.config.repos, repo ∉ repos → t.items.lookup repo.id =
    some { u.usageRow repo with availableBytes := 0, availableFiles := 0 }
  keys : t.groups.keys = start.keys
  groups : ∀ group, t.groups.lookup group = (start.lookup group).map fun g =>
    { g with
      physicalBytes := g.physicalBytes +
        charged (fun repo => some repo.group) (fun repo => (u.usageRow repo).physicalBytes) repos (some group)
      physicalFiles := g.physicalFiles +
        charged (fun repo => some repo.group) (fun repo => (u.usageRow repo).physicalFiles) repos (some group) }
  groupKeys : ∀ group ∈ start.keys, t.groupKeys.lookup group =
    some ((repos.filter fun repo => decide (repo.group = group)).toFinset.biUnion u.accessibleKeys)
  sameKeys : t.groupKeys.keys = start.keys

theorem accessibleKeys_subset {key : Str} (h : key ∈ u.accessibleKeys repo) : key ∈ u.inventory.present := by
  unfold accessibleKeys at h
  split at h
  · exact (Finset.mem_filter.1 h).2
  · exact absurd h (Finset.notMem_empty _)

theorem totals_add {t : Totals} {accessible : Dict Str (Finset Str)} {fileSizes : Dict Str Nat} {row : UsageRow}
    (haccessible : accessible.lookup repo.id = some (u.accessibleKeys repo))
    (hsizes : ∀ key, fileSizes.lookup key = if key ∈ u.inventory.present then some (keySize u.inventory.entries key) else none)
    (hrow : t.items.lookup repo.id = some row) :
    Totals.add accessible fileSizes t repo =
      { items := t.items.modify repo.id fun row =>
          { row with availableBytes := u.weigh (u.accessibleKeys repo), availableFiles := (u.accessibleKeys repo).card }
        groups := t.groups.modify repo.group fun g =>
          { g with physicalBytes := g.physicalBytes + row.physicalBytes, physicalFiles := g.physicalFiles + row.physicalFiles }
        groupKeys := t.groupKeys.modify repo.group (· ∪ u.accessibleKeys repo) } := by
  have hkeys : (accessible.lookup repo.id).getD ∅ ∩ fileSizes.keys.toFinset = u.accessibleKeys repo := by
    rw [haccessible, Option.getD_some]
    refine Finset.inter_eq_left.2 fun key hkey => List.mem_toFinset.2 (by_contra fun hn => ?_)
    have hnone := Dict.lookup_eq_none_iff.2 hn
    rw [hsizes, if_pos (accessibleKeys_subset hkey)] at hnone
    cases hnone
  have hweigh : sizeOfKeys fileSizes (u.accessibleKeys repo) = u.weigh (u.accessibleKeys repo) := by
    refine Finset.sum_congr rfl fun key hkey => ?_
    rw [hsizes, if_pos (accessibleKeys_subset hkey)]
    rfl
  unfold Totals.add
  dsimp only
  rw [hkeys, hweigh, Dict.lookup_modify, if_pos rfl, hrow]
  rfl

/-- **Adding up one repository** more. -/
theorem Totalled.add {start : Dict (Option Str) UsageGroup} {repos : List RepoConfig} {t : Totals}
    {accessible : Dict Str (Finset Str)} {fileSizes : Dict Str Nat}
    (haccessible : accessible.lookup repo.id = some (u.accessibleKeys repo))
    (hsizes : ∀ key, fileSizes.lookup key = if key ∈ u.inventory.present then some (keySize u.inventory.entries key) else none)
    (hrepo : repo ∈ u.config.repos) (hids : ∀ r ∈ u.config.repos, r.id = repo.id → r = repo) (hrepos : repos ⊆ u.config.repos)
    (hnew : repo ∉ repos) (h : u.Totalled start repos t) :
    u.Totalled start (repos ++ [repo]) (Totals.add accessible fileSizes t repo) := by
  rw [totals_add haccessible hsizes (h.later repo hrepo hnew)]
  constructor
  · intro r hr
    rw [Dict.lookup_modify]
    rcases List.mem_append.1 hr with hr | hr
    · rw [if_neg fun e => hnew (hids r (hrepos hr) e ▸ hr), h.items r hr]
    · rw [List.mem_singleton.1 hr, if_pos rfl, h.later repo hrepo hnew]
      rfl
  · intro r hr hout
    rw [List.mem_append, List.mem_singleton, not_or] at hout
    rw [Dict.lookup_modify, if_neg fun e => hout.2 (hids r hr e), h.later r hr hout.1]
  · exact (Dict.keys_modify _ _ _).trans h.keys
  · intro group
    rw [Dict.lookup_modify, h.groups, charged_append, charged_append, charged_singleton, charged_singleton]
    by_cases hg : group = repo.group
    · rw [if_pos hg, if_pos (congrArg some hg.symm), if_pos (congrArg some hg.symm), Option.map_map]
      refine congrArg (Option.map · _) (funext fun g => ?_)
      simp only [Function.comp_apply, Nat.add_assoc]
    · have hne : some repo.group ≠ some group := fun e => hg (Option.some.inj e).symm
      rw [if_neg hg, if_neg hne, if_neg hne]
      rfl
  · intro group hgroup
    rw [Dict.lookup_modify, h.groupKeys group hgroup, List.filter_append, List.toFinset_append, Finset.union_biUnion]
    by_cases hg : group = repo.group
    · rw [if_pos hg, List.filter_cons_of_pos (by simp [hg]), List.filter_nil, List.toFinset_cons, List.toFinset_nil,
        LawfulSingleton.insert_empty_eq, Finset.singleton_biUnion]
      rfl
    · rw [if_neg hg, List.filter_cons_of_neg (by simp [Ne.symm hg]), List.filter_nil, List.toFinset_nil, Finset.biUnion_empty,
        Finset.union_empty]
  · exact (Dict.keys_modify _ _ _).trans h.sameKeys

theorem totalled_nil {s : Owned} (hs : u.Visited (ranked (fun repo : RepoConfig => repo.id) u.config.repos) s) {m : Measured}
    (hm : u.Counted s.items u.inventory.entries m) :
    u.Totalled s.groups [] ⟨m.items, s.groups, .ofPairs (s.groups.keys.map fun group => (group, ∅))⟩ where
  items _ h := nomatch h
  later repo hrepo _ := by
    rw [hm.items, hs.items repo ((perm_ranked _ _).mem_iff.2 hrepo), Option.map_some]
    unfold charge usageRow
    rw [Nat.zero_add, Nat.zero_add]
  keys := rfl
  groups _ := Option.map_id'.symm
  groupKeys _ hgroup := Dict.lookup_ofPairs_map hgroup ∅
  sameKeys := Dict.keys_ofPairs_map s.groups.nodup_keys ∅

/-- **The last loop** adds up to the figures. -/
theorem totalled_all {s : Owned} (hs : u.Visited (ranked (fun repo : RepoConfig => repo.id) u.config.repos) s) {m : Measured}
    (hm : u.Counted s.items u.inventory.entries m) :
    u.Totalled s.groups u.config.repos (u.config.repos.foldl (Totals.add s.accessible m.fileSizes)
      ⟨m.items, s.groups, .ofPairs (s.groups.keys.map fun group => (group, ∅))⟩) := by
  refine foldl_inv_on (fun repos t => u.Totalled s.groups repos t) (totalled_nil hs hm) fun pre repo post t hsplit h => ?_
  have hin : ∀ r ∈ pre ++ repo :: post, r ∈ u.config.repos := fun r hr => by rwa [hsplit]
  have hrepo := hin repo (List.mem_append_right _ List.mem_cons_self)
  have hids : ∀ r ∈ u.config.repos, r.id = repo.id → r = repo := fun r hr => List.inj_on_of_nodup_map u.config.idsNodup hr hrepo
  have hnew : repo ∉ pre := fun hpre => by
    have hnd := List.Nodup.of_map _ u.config.idsNodup
    rw [hsplit] at hnd
    exact (List.nodup_append.1 hnd).2.2 repo hpre repo List.mem_cons_self rfl
  exact h.add (hs.accessible repo ((perm_ranked _ _).mem_iff.2 hrepo)) hm.fileSizes hrepo hids
    (fun r hr => hin r (List.mem_append_left _ hr)) hnew

theorem charged_group (weight : RepoConfig → Nat) (group : Option Str) :
    charged (fun repo : RepoConfig => some repo.group) weight u.config.repos (some group) =
      ((u.members group).map weight).sum := by
  unfold charged members
  have hsame : ∀ repo ∈ u.config.repos, decide (some repo.group = some group) = decide (repo.group = group) :=
    fun _ _ => decide_eq_decide.2 Option.some_inj
  rw [List.filter_congr hsame]

theorem countP_group (group : Option Str) :
    ((ranked (fun repo : RepoConfig => repo.id) u.config.repos).countP fun repo =>
      decide (repo.group = group) && (u.reason repo).isSome) = (u.members group).countP fun repo => (u.reason repo).isSome := by
  rw [(perm_ranked _ _).countP_eq]
  unfold members
  rw [List.countP_filter]
  exact List.countP_congr fun repo _ => by rw [Bool.and_comm]

/-- The rows of the groups, when all is added up. -/
theorem rows_groups {s : Owned} (hs : u.Visited (ranked (fun repo : RepoConfig => repo.id) u.config.repos) s) {t : Totals}
    (ht : u.Totalled s.groups u.config.repos t) {fileSizes : Dict Str Nat}
    (hsizes : ∀ key, fileSizes.lookup key = if key ∈ u.inventory.present then some (keySize u.inventory.entries key) else none) :
    (t.groupKeys.rows.foldl (setAvailable fileSizes) t.groups).rows.map Prod.snd = u.groups.map u.usageGroup := by
  have hkeys : (t.groupKeys.rows.foldl (setAvailable fileSizes) t.groups).keys = s.groups.keys :=
    (Dict.keys_foldl_modify (UsageGroup.reached fileSizes) _ _).trans ht.keys
  have hrow : ∀ group ∈ (t.groupKeys.rows.foldl (setAvailable fileSizes) t.groups).keys,
      (t.groupKeys.rows.foldl (setAvailable fileSizes) t.groups).lookup group = some (u.usageGroup group) := by
    intro group hgroup
    rw [hkeys] at hgroup
    have hmember : (group, u.groupKeys group) ∈ t.groupKeys.rows := Dict.lookup_eq_some_iff.1 (ht.groupKeys group hgroup)
    have hweigh : sizeOfKeys fileSizes (u.groupKeys group) = u.weigh (u.groupKeys group) := by
      refine Finset.sum_congr rfl fun key hkey => ?_
      obtain ⟨r, -, hkey⟩ := Finset.mem_biUnion.1 hkey
      rw [hsizes, if_pos (accessibleKeys_subset hkey)]
      rfl
    refine (Dict.lookup_foldl_modify (UsageGroup.reached fileSizes) t.groupKeys.nodup_keys t.groups hmember).trans ?_
    rw [ht.groups, hs.groups group hgroup, Option.map_some, Option.map_some, charged_group, charged_group, countP_group]
    unfold UsageGroup.reached usageGroup
    rw [Nat.zero_add, Nat.zero_add, hweigh]
  rw [Dict.rows_eq_map hrow, hkeys, hs.groupKeys, List.map_map]
  rfl

/-- **The report** is made of the figures. -/
theorem run_eq_report (haccepted : u.builder.routes.Accepted u.config) : u.run = .ok u.report := by
  obtain ⟨s, hrun, hs⟩ := visited_all haccepted
  have howner : ∀ entry ∈ u.inventory.entries, entry.presentKey.bind s.owners.lookup = u.accountOf entry := by
    intro entry hentry
    unfold accountOf
    cases hkey : entry.presentKey with
    | none => rfl
    | some key =>
      have hpresent : key ∈ u.inventory.present := List.mem_filterMap.2 ⟨entry, hentry, hkey⟩
      exact (hs.owners key).trans (if_pos hpresent)
  have hm := counted_all s.items howner
  have ht := totalled_all hs hm
  have hrepositories : u.config.repos.filterMap (fun repo => (u.config.repos.foldl
      (Totals.add s.accessible (u.inventory.entries.foldl (Measured.add s.owners) { items := s.items }).fileSizes)
      ⟨(u.inventory.entries.foldl (Measured.add s.owners) { items := s.items }).items, s.groups,
        .ofPairs (s.groups.keys.map fun group => (group, ∅))⟩).items.lookup repo.id) = u.config.repos.map u.usageRow :=
    (List.filterMap_congr fun repo hrepo => ht.items repo hrepo).trans (congrFun List.filterMap_eq_map _)
  unfold run storageUsage
  rw [hrun]
  refine congrArg Except.ok ?_
  unfold report
  dsimp only
  rw [hrepositories, rows_groups hs ht hm.fileSizes, hm.totalBytes, hm.unattributedBytes, hm.unattributedFiles,
    hm.unreadableSizes]

/-! ## What the report says -/

/-- A repository with a usable snapshot claims a key, and no such one before it by id does. -/
def Owns (u : UsageInput) (repo : RepoConfig) (key : Str) : Prop :=
  u.claims repo key = true ∧ ∀ other ∈ u.config.repos, u.claims other key = true → repo.id ≤ other.id

instance (u : UsageInput) (repo : RepoConfig) (key : Str) : Decidable (u.Owns repo key) :=
  inferInstanceAs (Decidable (_ ∧ _))

/-- The entries of the scan under a key that a repository owns. -/
def ownEntries (u : UsageInput) (repo : RepoConfig) : List ScanEntry :=
  u.inventory.entries.filter fun entry => entry.presentKey.any fun key => decide (u.Owns repo key)

/-- What the row of a repository says. -/
structure RowSound (u : UsageInput) (repo : RepoConfig) (row : UsageRow) : Prop where
  repoId : row.repoId = repo.id
  group : row.group = repo.group
  reason : row.reason = u.reason repo
  physicalBytes : row.physicalBytes = ((u.ownEntries repo).map ScanEntry.bytes).sum
  physicalFiles : row.physicalFiles = (u.ownEntries repo).length
  availableBytes : row.availableBytes = u.weigh (u.accessibleKeys repo)
  availableFiles : row.availableFiles = (u.accessibleKeys repo).card

/-- What the row of a group says of the rows of its members. -/
structure GroupSound (u : UsageInput) (rows : List UsageRow) (g : UsageGroup) : Prop where
  physicalBytes : g.physicalBytes = (rows.map UsageRow.physicalBytes).sum
  physicalFiles : g.physicalFiles = (rows.map UsageRow.physicalFiles).sum
  availableBytes : g.availableBytes = u.weigh (u.groupKeys g.group)
  availableFiles : g.availableFiles = (u.groupKeys g.group).card
  bytes_le_sum : g.availableBytes ≤ (rows.map UsageRow.availableBytes).sum
  files_le_sum : g.availableFiles ≤ (rows.map UsageRow.availableFiles).sum
  le_bytes : ∀ row ∈ rows, row.availableBytes ≤ g.availableBytes
  le_files : ∀ row ∈ rows, row.availableFiles ≤ g.availableFiles
  unknownRepositories : g.unknownRepositories = rows.countP fun row => row.reason.isSome

/-- What the report says: nothing is lost or counted twice. -/
structure UsageSound (u : UsageInput) (report : UsageReport) : Prop where
  totalBytes : report.totalBytes = (u.inventory.entries.map ScanEntry.bytes).sum
  fileCount : report.fileCount = u.inventory.entries.length
  bytes : (report.repositories.map UsageRow.physicalBytes).sum + report.unattributedBytes = report.totalBytes
  files : (report.repositories.map UsageRow.physicalFiles).sum + report.unattributedFiles = report.fileCount
  attributed : (report.repositories.map UsageRow.physicalBytes).sum = report.attributedBytes
  groupBytes : (report.groups.map UsageGroup.physicalBytes).sum + report.unattributedBytes = report.totalBytes
  groupFiles : (report.groups.map UsageGroup.physicalFiles).sum + report.unattributedFiles = report.fileCount
  repositories : List.Forall₂ u.RowSound u.config.repos report.repositories
  groupNames : (report.groups.map UsageGroup.group).Nodup ∧
    ∀ group, group ∈ report.groups.map UsageGroup.group ↔ ∃ repo ∈ u.config.repos, repo.group = group
  groups : ∀ g ∈ report.groups, u.GroupSound (report.repositories.filter fun row => decide (row.group = g.group)) g

theorem ownerOf_eq_some {key id : Str} :
    u.ownerOf key = some id ↔ ∃ repo ∈ u.config.repos, repo.id = id ∧ u.Owns repo key := by
  unfold ownerOf
  rw [Option.map_eq_some_iff]
  constructor
  · rintro ⟨repo, hfind, rfl⟩
    obtain ⟨hrepo, hclaims, hleast⟩ := (find?_ranked u.config.idsNodup).1 hfind
    exact ⟨repo, hrepo, rfl, hclaims, hleast⟩
  · rintro ⟨repo, hrepo, rfl, hclaims, hleast⟩
    exact ⟨repo, (find?_ranked u.config.idsNodup).2 ⟨hrepo, hclaims, hleast⟩, rfl⟩

theorem charged_own (hrepo : repo ∈ u.config.repos) (weight : ScanEntry → Nat) :
    charged u.accountOf weight u.inventory.entries (some repo.id) = ((u.ownEntries repo).map weight).sum := by
  unfold charged ownEntries
  refine congrArg (fun l : List ScanEntry => (l.map weight).sum) (List.filter_congr fun entry _ => ?_)
  rw [Bool.eq_iff_iff, decide_eq_true_eq, Option.any_eq_true]
  unfold accountOf
  rw [Option.bind_eq_some_iff]
  refine exists_congr fun key => and_congr_right fun _ => ?_
  rw [ownerOf_eq_some, decide_eq_true_eq]
  constructor
  · rintro ⟨other, hother, hid, howns⟩
    rwa [← List.inj_on_of_nodup_map u.config.idsNodup hother hrepo hid]
  · exact fun howns => ⟨repo, hrepo, rfl, howns⟩

/-- What the repositories are charged and what is charged to none. -/
theorem sum_rows (weight : ScanEntry → Nat) :
    (u.config.repos.map fun repo => charged u.accountOf weight u.inventory.entries (some repo.id)).sum +
      charged u.accountOf weight u.inventory.entries none = (u.inventory.entries.map weight).sum := by
  have hin : ∀ entry ∈ u.inventory.entries, ∀ id, u.accountOf entry = some id →
      id ∈ u.config.repos.map fun repo => repo.id := by
    intro entry _ id hid
    obtain ⟨key, -, howner⟩ := Option.bind_eq_some_iff.1 hid
    obtain ⟨repo, hrepo, rfl, -⟩ := ownerOf_eq_some.1 howner
    exact List.mem_map_of_mem hrepo
  rw [← sum_charged u.config.idsNodup hin, List.map_map]
  rfl

theorem nodup_groups (u : UsageInput) : u.groups.Nodup := Dict.nodup_firstSeen _

theorem mem_groups {group : Option Str} : group ∈ u.groups ↔ ∃ repo ∈ u.config.repos, repo.group = group := by
  unfold groups
  rw [Dict.mem_firstSeen, List.mem_map]
  exact exists_congr fun repo => and_congr_left fun _ => (perm_ranked _ _).mem_iff

/-- The groups share what their members have. -/
theorem sum_groups (weight : RepoConfig → Nat) :
    (u.groups.map fun group => ((u.members group).map weight).sum).sum = (u.config.repos.map weight).sum := by
  have hgroup : ∀ repo ∈ u.config.repos, ∀ group, some repo.group = some group → group ∈ u.groups := fun repo hrepo group h =>
    mem_groups.2 ⟨repo, hrepo, Option.some.inj h⟩
  have hnone : charged (fun repo : RepoConfig => some repo.group) weight u.config.repos none = 0 := by
    unfold charged
    rw [List.filter_eq_nil_iff.2 (by simp)]
    rfl
  rw [← sum_charged (nodup_groups u) hgroup, hnone, Nat.add_zero]
  exact congrArg List.sum (List.map_congr_left fun group _ => (charged_group weight group).symm)

theorem rowSound (hrepo : repo ∈ u.config.repos) : u.RowSound repo (u.usageRow repo) where
  repoId := rfl
  group := rfl
  reason := rfl
  physicalBytes := charged_own hrepo _
  physicalFiles := (charged_own hrepo _).trans (by rw [List.map_const', List.sum_replicate]; exact Nat.mul_one _)
  availableBytes := rfl
  availableFiles := rfl

theorem filter_rows (group : Option Str) : (u.config.repos.map u.usageRow).filter (fun row => decide (row.group = group)) =
    (u.members group).map u.usageRow := by
  rw [List.filter_map]
  rfl

theorem groupSound (group : Option Str) : u.GroupSound ((u.members group).map u.usageRow) (u.usageGroup group) where
  physicalBytes := by rw [List.map_map]; rfl
  physicalFiles := by rw [List.map_map]; rfl
  availableBytes := rfl
  availableFiles := rfl
  bytes_le_sum := by
    rw [List.map_map]
    exact sum_biUnion_le u.accessibleKeys (keySize u.inventory.entries) (u.members group)
  files_le_sum := by
    have hle := sum_biUnion_le u.accessibleKeys (fun _ => 1) (u.members group)
    simp only [← Finset.card_eq_sum_ones] at hle
    rw [List.map_map]
    exact hle
  le_bytes row hrow := by
    obtain ⟨repo, hrepo, rfl⟩ := List.mem_map.1 hrow
    exact sum_le_biUnion u.accessibleKeys (keySize u.inventory.entries) hrepo
  le_files row hrow := by
    obtain ⟨repo, hrepo, rfl⟩ := List.mem_map.1 hrow
    exact Finset.card_le_card (Finset.subset_biUnion_of_mem u.accessibleKeys (List.mem_toFinset.2 hrepo))
  unknownRepositories := by
    rw [List.countP_map]
    rfl

/-- **The report is sound.** -/
theorem usageSound (u : UsageInput) : u.UsageSound u.report := by
  have hlength : (u.inventory.entries.map fun _ => 1).sum = u.inventory.entries.length := by
    rw [List.map_const', List.sum_replicate]
    exact Nat.mul_one _
  have hbytes := sum_rows (u := u) ScanEntry.bytes
  have hfiles := sum_rows (u := u) fun _ => 1
  rw [hlength] at hfiles
  have hrows : ∀ field : UsageRow → Nat, (u.report.repositories.map field).sum =
      (u.config.repos.map fun repo => field (u.usageRow repo)).sum := fun field => by
    unfold report
    rw [List.map_map]
    rfl
  have hgroupNames : u.report.groups.map UsageGroup.group = u.groups := by
    unfold report
    rw [List.map_map]
    exact List.map_id _
  constructor
  · rfl
  · rfl
  · exact (congrArg (· + u.report.unattributedBytes) (hrows _)).trans hbytes
  · exact (congrArg (· + u.report.unattributedFiles) (hrows _)).trans hfiles
  · exact (hrows _).trans (Nat.eq_sub_of_add_eq hbytes)
  · refine Eq.trans (congrArg (· + u.report.unattributedBytes) ?_) hbytes
    unfold report
    rw [List.map_map]
    exact sum_groups fun repo => (u.usageRow repo).physicalBytes
  · refine Eq.trans (congrArg (· + u.report.unattributedFiles) ?_) hfiles
    unfold report
    rw [List.map_map]
    exact sum_groups fun repo => (u.usageRow repo).physicalFiles
  · refine List.forall₂_map_right_iff.2 (List.forall₂_same.2 fun repo hrepo => rowSound hrepo)
  · rw [hgroupNames]
    exact ⟨nodup_groups u, fun _ => mem_groups⟩
  · intro g hg
    obtain ⟨group, -, rfl⟩ := List.mem_map.1 hg
    have hfilter := filter_rows (u := u) group
    exact hfilter ▸ groupSound group

end UsageInput

/-! ## The order of the inputs -/

/-- The same rows, in any order and any number of times. -/
structure UsageCatalog.SameRows (c c' : UsageCatalog) : Prop where
  lastCheck : c'.lastCheck = c.lastCheck
  sourceIdentity : c'.sourceIdentity = c.sourceIdentity
  packages : ∀ p, p ∈ c'.packages ↔ p ∈ c.packages
  artifacts : ∀ package file, file ∈ (c'.artifacts.lookup package).getD [] ↔ file ∈ (c.artifacts.lookup package).getD []
  warmed : ∀ file, file ∈ c'.warmed ↔ file ∈ c.warmed

theorem mem_usageFiles_true {repo : RepoConfig} {catalog : UsageCatalog} {file : Str} :
    (file, true) ∈ usageFiles repo catalog ↔
      ∃ p ∈ catalog.packages, file = p.2 ∨ repo.type = .nix ∧ file ∈ (catalog.artifacts.lookup p.1).getD [] := by
  have hfalse : ∀ files : List Str, (file, true) ∉ files.map fun f => (f, false) := fun files h => by
    obtain ⟨_, -, h⟩ := List.mem_map.1 h
    cases h
  unfold usageFiles
  rw [List.mem_append, List.mem_append, or_assoc, or_iff_left, List.mem_flatMap]
  · refine exists_congr fun p => and_congr_right fun _ => ?_
    rw [List.mem_cons, Prod.mk.injEq, and_iff_left rfl]
    refine or_congr_right ?_
    split
    · rename_i hnix
      simp [hnix]
    · rename_i hnix
      simp [hnix]
  · rintro (h | h)
    · exact hfalse _ h
    · obtain ⟨row, -, h⟩ := List.mem_flatMap.1 h
      exact hfalse _ h

theorem mem_usageFiles_false {repo : RepoConfig} {catalog : UsageCatalog} {file : Str} :
    (file, false) ∈ usageFiles repo catalog ↔
      file ∈ catalog.warmed ∨ ∃ package, file ∈ (catalog.artifacts.lookup package).getD [] := by
  have hrows : (∃ row ∈ catalog.artifacts.rows, file ∈ row.2) ↔ ∃ package, file ∈ (catalog.artifacts.lookup package).getD [] := by
    constructor
    · rintro ⟨row, hrow, hfile⟩
      have hlookup : catalog.artifacts.lookup row.1 = some row.2 := Dict.lookup_eq_some_iff.2 hrow
      exact ⟨row.1, by rwa [hlookup]⟩
    · rintro ⟨package, hfile⟩
      cases hlookup : catalog.artifacts.lookup package with
      | none => simp [hlookup] at hfile
      | some files =>
        rw [hlookup] at hfile
        exact ⟨_, Dict.lookup_eq_some_iff.1 hlookup, hfile⟩
  unfold usageFiles
  rw [List.mem_append, List.mem_append, or_assoc, or_iff_right, List.mem_flatMap, ← hrows]
  · refine or_congr (by simp) (exists_congr fun row => and_congr_right fun _ => by simp)
  · intro h
    obtain ⟨p, -, h⟩ := List.mem_flatMap.1 h
    rcases List.mem_cons.1 h with h | h
    · cases h
    · split at h
      · obtain ⟨_, -, h⟩ := List.mem_map.1 h
        cases h
      · cases h

theorem UsageCatalog.SameRows.mem_usageFiles {c c' : UsageCatalog} (h : c.SameRows c') {repo : RepoConfig} (f : Str × Bool) :
    f ∈ usageFiles repo c' ↔ f ∈ usageFiles repo c := by
  obtain ⟨file, available⟩ := f
  cases available
  · rw [mem_usageFiles_false, mem_usageFiles_false]
    exact or_congr (h.warmed file) (exists_congr fun package => h.artifacts package file)
  · rw [mem_usageFiles_true, mem_usageFiles_true]
    exact exists_congr fun p => and_congr (h.packages p) (or_congr_right (and_congr_right fun _ => h.artifacts p.1 file))

/-- The same inputs in another order. -/
structure UsageInput.Reorders (u u' : UsageInput) : Prop where
  lower : u'.lower = u.lower
  identity : u'.identity = u.identity
  config : u.config.Reorders u'.config
  catalogs : ∀ id, (u.catalogs id).SameRows (u'.catalogs id)
  entries : u.inventory.entries.Perm u'.inventory.entries
  failedLeaves : u'.inventory.failedLeaves = u.inventory.failedLeaves
  dedupKeys : ∀ key, u'.dedupKeys.lookup key = u.dedupKeys.lookup key

namespace UsageInput

namespace Reorders
variable {u u' : UsageInput}

theorem mem_present (h : u.Reorders u') {key : Str} : key ∈ u'.inventory.present ↔ key ∈ u.inventory.present :=
  (h.entries.filterMap _).mem_iff.symm

theorem reason_eq (h : u.Reorders u') (repo : RepoConfig) : u'.reason repo = u.reason repo := by
  unfold reason usageReason
  rw [h.identity, (h.catalogs repo.id).lastCheck, (h.catalogs repo.id).sourceIdentity]

theorem mem_files (h : u.Reorders u') (repo : RepoConfig) (f : Str × Bool) : f ∈ u'.files repo ↔ f ∈ u.files repo :=
  (h.catalogs repo.id).mem_usageFiles f

theorem forRepo (hb : CacheKeyBuilder.new u.config = .ok u.builder) (hb' : CacheKeyBuilder.new u'.config = .ok u'.builder)
    (h : u.Reorders u') {repo : RepoConfig} (hrepo : repo ∈ u.config.repos) : ∃ keyFor keyFor',
      u.builder.forRepo repo = .ok keyFor ∧ u'.builder.forRepo repo = .ok keyFor' ∧
        ∀ filename dedup, keyFor'.key filename dedup = keyFor.key filename dedup := by
  obtain ⟨keyFor, -, hkeyFor, -⟩ := CacheKeyBuilder.forRepo_ok (accepted_of_new hb) hrepo
  obtain ⟨keyFor', -, hkeyFor', -⟩ := CacheKeyBuilder.forRepo_ok (accepted_of_new hb') (h.config.repos.mem_iff.1 hrepo)
  exact ⟨keyFor, keyFor', hkeyFor, hkeyFor', h.config.key_eq hb hb' hrepo hkeyFor hkeyFor'⟩

theorem claims_eq (hb : CacheKeyBuilder.new u.config = .ok u.builder) (hb' : CacheKeyBuilder.new u'.config = .ok u'.builder)
    (h : u.Reorders u') {repo : RepoConfig} (hrepo : repo ∈ u.config.repos) (key : Str) :
    u'.claims repo key = u.claims repo key := by
  obtain ⟨keyFor, keyFor', hkeyFor, hkeyFor', hkeys⟩ := h.forRepo hb hb' hrepo
  unfold claims
  rw [h.reason_eq, hkeyFor, hkeyFor']
  cases u.reason repo with
  | some _ => rfl
  | none =>
    dsimp only
    rw [Bool.eq_iff_iff, List.contains_iff_mem, List.contains_iff_mem]
    unfold keysOf
    rw [List.mem_flatMap, List.mem_flatMap]
    refine exists_congr fun f => and_congr (h.mem_files repo f) ?_
    rw [h.config.nginx, hkeys, hkeys]

theorem accessibleKeys_eq (hb : CacheKeyBuilder.new u.config = .ok u.builder)
    (hb' : CacheKeyBuilder.new u'.config = .ok u'.builder) (h : u.Reorders u') {repo : RepoConfig}
    (hrepo : repo ∈ u.config.repos) : u'.accessibleKeys repo = u.accessibleKeys repo := by
  obtain ⟨keyFor, keyFor', hkeyFor, hkeyFor', hkeys⟩ := h.forRepo hb hb' hrepo
  unfold accessibleKeys
  rw [h.reason_eq, hkeyFor, hkeyFor']
  cases u.reason repo with
  | some _ => rfl
  | none =>
    have heffective : ∀ f, effectiveKey u'.lower u'.dedupKeys repo keyFor' f =
      effectiveKey u.lower u.dedupKeys repo keyFor f := by
      intro f
      unfold effectiveKey
      rw [h.lower, h.dedupKeys, hkeys]
    ext key
    dsimp only
    unfold reach
    rw [Finset.mem_filter, Finset.mem_filter, List.mem_toFinset, List.mem_toFinset, List.mem_map, List.mem_map]
    refine and_congr (exists_congr fun f => ?_) h.mem_present
    rw [List.mem_filter, List.mem_filter, h.mem_files, heffective]

theorem ranked_eq (h : u.Reorders u') : ranked (fun repo : RepoConfig => repo.id) u'.config.repos =
    ranked (fun repo : RepoConfig => repo.id) u.config.repos := (ranked_eq_of_perm u.config.idsNodup h.config.repos).symm

theorem accountOf_eq (hb : CacheKeyBuilder.new u.config = .ok u.builder) (hb' : CacheKeyBuilder.new u'.config = .ok u'.builder)
    (h : u.Reorders u') : u'.accountOf = u.accountOf := by
  funext entry
  unfold accountOf
  refine congrArg (entry.presentKey.bind ·) (funext fun key => ?_)
  unfold ownerOf
  rw [h.ranked_eq]
  refine congrArg (Option.map _) (List.find?_congr fun repo hrepo => ?_)
  exact h.claims_eq hb hb' ((perm_ranked _ _).mem_iff.1 hrepo) key

theorem weigh_eq (h : u.Reorders u') : u'.weigh = u.weigh := by
  unfold weigh keySize
  rw [List.toFinset_eq_of_perm _ _ h.entries]

theorem usageRow_eq (hb : CacheKeyBuilder.new u.config = .ok u.builder) (hb' : CacheKeyBuilder.new u'.config = .ok u'.builder)
    (h : u.Reorders u') {repo : RepoConfig} (hrepo : repo ∈ u.config.repos) : u'.usageRow repo = u.usageRow repo := by
  unfold usageRow
  rw [h.accountOf_eq hb hb', h.weigh_eq, h.accessibleKeys_eq hb hb' hrepo, h.reason_eq, charged_perm h.entries,
    charged_perm h.entries]

theorem members_perm (h : u.Reorders u') (group : Option Str) : (u.members group).Perm (u'.members group) :=
  h.config.repos.filter _

theorem usageGroup_eq (hb : CacheKeyBuilder.new u.config = .ok u.builder) (hb' : CacheKeyBuilder.new u'.config = .ok u'.builder)
    (h : u.Reorders u') (group : Option Str) : u'.usageGroup group = u.usageGroup group := by
  have hmember : ∀ repo ∈ u'.members group, repo ∈ u.config.repos := fun repo hrepo =>
    h.config.repos.mem_iff.2 (List.mem_filter.1 hrepo).1
  have hkeys : u'.groupKeys group = u.groupKeys group := by
    unfold groupKeys
    rw [List.toFinset_eq_of_perm _ _ (h.members_perm group)]
    exact Finset.biUnion_congr rfl fun repo hrepo => h.accessibleKeys_eq hb hb' (hmember repo (List.mem_toFinset.1 hrepo))
  have hsum : ∀ field : UsageRow → Nat, ((u'.members group).map fun repo => field (u'.usageRow repo)).sum =
      ((u.members group).map fun repo => field (u.usageRow repo)).sum := fun field => by
    rw [List.map_congr_left fun repo hrepo => by rw [h.usageRow_eq hb hb' (hmember repo hrepo)]]
    exact ((h.members_perm group).map _).sum_eq.symm
  unfold usageGroup
  rw [hsum, hsum, h.weigh_eq, hkeys, (h.members_perm group).countP_eq]
  simp only [h.reason_eq]

/-- **No order shows**: the rows of the repositories come in their order, and nothing else changes. -/
theorem report_eq (hb : CacheKeyBuilder.new u.config = .ok u.builder) (hb' : CacheKeyBuilder.new u'.config = .ok u'.builder)
    (h : u.Reorders u') : u'.report = { u.report with repositories := u'.config.repos.map u.usageRow } := by
  have hgroups : u'.groups = u.groups := by
    unfold groups
    rw [h.ranked_eq]
  have hrows : u'.config.repos.map u'.usageRow = u'.config.repos.map u.usageRow :=
    List.map_congr_left fun repo hrepo => h.usageRow_eq hb hb' (h.config.repos.mem_iff.2 hrepo)
  unfold report
  dsimp only
  rw [hrows, hgroups, List.map_congr_left fun group _ => h.usageGroup_eq hb hb' group, h.accountOf_eq hb hb', h.failedLeaves,
    (h.entries.map ScanEntry.bytes).sum_eq, h.entries.length_eq, h.entries.countP_eq, h.entries.countP_eq,
    charged_perm h.entries, charged_perm h.entries]

end Reorders
end UsageInput

/-- **Storage accounting conserves bytes**, whatever the inputs, and in whatever order they come. -/
theorem storage_usage_conserves {u : UsageInput} (h : CacheKeyBuilder.new u.config = .ok u.builder) :
    ∃ report, u.run = .ok report ∧ u.UsageSound report ∧ ∀ u', u.Reorders u' →
      ∃ builder' report', CacheKeyBuilder.new u'.config = .ok builder' ∧ { u' with builder := builder' }.run = .ok report' ∧
        report'.repositories.Perm report.repositories ∧ { report' with repositories := report.repositories } = report := by
  refine ⟨_, UsageInput.run_eq_report (accepted_of_new h), UsageInput.usageSound u, fun u' hu' => ?_⟩
  obtain ⟨routes, hroutes, -⟩ := bind_eq_ok.1 h
  obtain ⟨routes', hroutes'⟩ := hu'.config.computeRoutes_ok hroutes
  have h' : CacheKeyBuilder.new u'.config = .ok ⟨routes', u'.config.nginx.enableDedup⟩ := by
    unfold CacheKeyBuilder.new
    rw [hroutes']
    rfl
  have hsame : u.Reorders { u' with builder := ⟨routes', u'.config.nginx.enableDedup⟩ } := { hu' with }
  refine ⟨_, _, h', UsageInput.run_eq_report (accepted_of_new h'), ?_⟩
  rw [hsame.report_eq h h']
  exact ⟨(hu'.config.repos.map _).symm, rfl⟩

/-- A package of each repository, a file that nothing lists, and one whose key and size could not be read; the second
package of `b` is answered from the file of `a`. -/
def nestedUsage (builder : CacheKeyBuilder) : UsageInput where
  lower := id
  identity := nestedIdentity
  config := nestedConfig
  catalogs id :=
    ⟨some "2026-01-02T03:04:05+00:00".toList, some id,
      if id = ['a'] then [(['x'], "x.deb".toList)] else [(['z'], "z.deb".toList), (['w'], "w.deb".toList)], .empty, []⟩
  inventory := ⟨[⟨"0/00".toList, "f".toList, some "httph/foo/x.deb".toList, some 10, none⟩,
    ⟨"1/11".toList, "g".toList, some "httpi/purge/foo/z.deb".toList, some 20, none⟩,
    ⟨"1/11".toList, "h".toList, some "other".toList, some 25, none⟩,
    ⟨"1/11".toList, "i".toList, none, some (-1), some "read failed".toList⟩], 0⟩
  builder := builder
  dedupKeys := Table.empty.upsert ("/purge/foo/w.deb".toList, "httph/foo/x.deb".toList)

theorem storage_usage_conserves_nested : ∃ builder report, CacheKeyBuilder.new nestedConfig = .ok builder ∧
    (nestedUsage builder).run = .ok report ∧ report.repositories.map UsageRow.physicalBytes = [10, 20] ∧
    report.repositories.map UsageRow.availableBytes = [10, 30] ∧ report.unattributedBytes = 25 ∧ report.totalBytes = 55 := by
  have hbytes : (CacheKeyBuilder.new nestedConfig).toOption.map (fun builder => (nestedUsage builder).run.toOption.map
      fun report => (report.repositories.map UsageRow.physicalBytes, report.repositories.map UsageRow.availableBytes)) =
      some (some ([10, 20], [10, 30])) := by decide +kernel
  obtain ⟨builder, h⟩ := nestedConfig_ok
  obtain ⟨report, hrun, hsound, -⟩ := storage_usage_conserves (u := nestedUsage builder) h
  simp only [h, hrun, Except.toOption, Option.map_some, Option.some.injEq, Prod.mk.injEq] at hbytes
  have htotal : report.totalBytes = 55 := hsound.totalBytes
  have hsum := hsound.bytes
  rw [hbytes.1, htotal, show [10, 20].sum = 30 from rfl] at hsum
  exact ⟨builder, report, h, hrun, hbytes.1, hbytes.2, by omega, htotal⟩

end RepoWatch
