import RepoWatch.Repositories
/-!
# Fetch — the snapshot of a parsed index

Three dictionaries are made of one list of packages, the last entry of a key winning in each.  The one of the hashes leaves
out the entries without a hash, so it can answer for a key from an earlier entry (`fetch_describes_iff`).
-/
namespace RepoWatch

open Lib

/-- One package of an index. -/
structure PackageRef where
  name : Str
  version : Str
  filename : Option Str := none
  contentHash : Option Str := none
  deriving DecidableEq

namespace PackageRef

def key (p : PackageRef) : Str := p.name ++ '-' :: p.version

/-- `p.filename or ""`. -/
def path (p : PackageRef) : Str := p.filename.getD []

/-- The hash of an entry that has one; an empty one counts as none. -/
def hash (p : PackageRef) : Option Str := p.contentHash.filter (· ≠ [])

end PackageRef

/-- `IndexParser.fetch` on the packages that the parser has read. -/
def fetch (repoId : Str) (packages : List PackageRef) : RepoSnapshot where
  repoId := repoId
  packages := .ofPairs (packages.map fun p => (p.key, p.path))
  names := .ofPairs (packages.map fun p => (p.key, p.name))
  contentHashes := .ofPairs (packages.filterMap fun p => p.hash.map (Prod.mk p.key))

/-! ## The entry that a dictionary answers from -/

/-- The last entry of a key. -/
def lastOf (packages : List PackageRef) (k : Str) : Option PackageRef := packages.reverse.find? fun p => decide (p.key = k)

/-- The last entry of a key that has a hash. -/
def lastHashed (packages : List PackageRef) (k : Str) : Option PackageRef :=
  packages.reverse.find? fun p => decide (p.key = k) && p.hash.isSome

section
variable {packages : List PackageRef} {k : Str} {p : PackageRef}

theorem lastOf_eq_some (h : lastOf packages k = some p) : p ∈ packages ∧ p.key = k :=
  ⟨List.mem_reverse.1 (List.mem_of_find?_eq_some h), by simpa using List.find?_some h⟩

theorem lastHashed_eq_some (h : lastHashed packages k = some p) : p ∈ packages ∧ p.key = k ∧ p.hash.isSome = true := by
  have hp := List.find?_some h
  rw [Bool.and_eq_true, decide_eq_true_eq] at hp
  exact ⟨List.mem_reverse.1 (List.mem_of_find?_eq_some h), hp⟩

/-- The last entry of a key is the last with a hash if it has one. -/
theorem lastHashed_of_isSome (h : lastOf packages k = some p) (hp : p.hash.isSome = true) : lastHashed packages k = some p := by
  unfold lastOf at h
  unfold lastHashed
  generalize packages.reverse = l at h ⊢
  induction l with
  | nil => cases h
  | cons q l ih =>
    by_cases hk : q.key = k
    · rw [List.find?_cons_of_pos (by simpa using hk)] at h
      obtain rfl := Option.some.inj h
      exact List.find?_cons_of_pos (by simp [hk, hp])
    · rw [List.find?_cons_of_neg (by simpa using hk)] at h
      rw [List.find?_cons_of_neg (by simp [hk]), ih h]

theorem lookup_ofPairs_map {ν : Type} (g : PackageRef → ν) (packages : List PackageRef) (k : Str) :
    (Dict.ofPairs (packages.map fun p => (p.key, g p))).lookup k = (lastOf packages k).map g := by
  have hmap : packages.map (fun p => (p.key, g p)) = packages.filterMap fun p => (some (g p)).map (Prod.mk p.key) := by
    rw [← List.filterMap_eq_map]
    rfl
  rw [hmap, Dict.lookup_ofPairs_filterMap PackageRef.key (fun p => some (g p))]
  simp only [Option.isSome_some, Bool.and_true, lastOf]
  cases packages.reverse.find? fun p => decide (p.key = k) <;> rfl

theorem lookup_packages (repoId : Str) (packages : List PackageRef) (k : Str) :
    (fetch repoId packages).packages.lookup k = (lastOf packages k).map PackageRef.path := lookup_ofPairs_map _ packages k

theorem lookup_names (repoId : Str) (packages : List PackageRef) (k : Str) :
    (fetch repoId packages).names.lookup k = (lastOf packages k).map PackageRef.name := lookup_ofPairs_map _ packages k

theorem lookup_contentHashes (repoId : Str) (packages : List PackageRef) (k : Str) :
    (fetch repoId packages).contentHashes.lookup k = (lastHashed packages k).bind PackageRef.hash :=
  Dict.lookup_ofPairs_filterMap PackageRef.key PackageRef.hash packages k

end

/-! ## Keys and packages -/

/-- What a snapshot stores under a key is what one package says. -/
structure RepoSnapshot.Describes (s : RepoSnapshot) (k : Str) (p : PackageRef) : Prop where
  packages : s.packages.lookup k = some p.path
  names : s.names.lookup k = some p.name
  contentHashes : s.contentHashes.lookup k = p.hash

/-- Where the last entry of a key has no hash but an earlier one has, the hash belongs to the last one's name and file
all the same. -/
def HashesAgree (packages : List PackageRef) : Prop :=
  ∀ p ∈ packages, lastOf packages p.key = some p → p.hash = none → ∀ q ∈ packages, lastHashed packages p.key = some q →
    ∃ r ∈ packages, r.key = p.key ∧ r.path = p.path ∧ r.name = p.name ∧ r.hash = q.hash

theorem exists_lastOf {repoId : Str} {packages : List PackageRef} {k : Str}
    (hk : k ∈ (fetch repoId packages).packages.keys ++ (fetch repoId packages).names.keys ++
      (fetch repoId packages).contentHashes.keys) : ∃ p, lastOf packages k = some p := by
  by_contra hnone
  have hlast : lastOf packages k = none := Option.eq_none_iff_forall_ne_some.2 fun p hp => hnone ⟨p, hp⟩
  have hhashed : lastHashed packages k = none := by
    refine Option.eq_none_iff_forall_ne_some.2 fun q hq => ?_
    have hkey := List.find?_eq_none.1 hlast q (List.mem_reverse.2 (lastHashed_eq_some hq).1)
    exact absurd (lastHashed_eq_some hq).2.1 (by simpa using hkey)
  simp only [List.mem_append] at hk
  rcases hk with (hk | hk) | hk
  · exact absurd hk (Dict.lookup_eq_none_iff.1 (by rw [lookup_packages, hlast]; rfl))
  · exact absurd hk (Dict.lookup_eq_none_iff.1 (by rw [lookup_names, hlast]; rfl))
  · exact absurd hk (Dict.lookup_eq_none_iff.1 (by rw [lookup_contentHashes, hhashed]; rfl))

/-- **What is stored under a key is one package's** exactly when the hashes agree. -/
theorem fetch_describes_iff (repoId : Str) (packages : List PackageRef) :
    (∀ k ∈ (fetch repoId packages).packages.keys ++ (fetch repoId packages).names.keys ++
        (fetch repoId packages).contentHashes.keys,
      ∃ p ∈ packages, p.key = k ∧ (fetch repoId packages).Describes k p) ↔ HashesAgree packages := by
  constructor
  · intro h p _ hlast hnone q _ hq
    have hlookup : (fetch repoId packages).packages.lookup p.key = some p.path := by rw [lookup_packages, hlast]; rfl
    obtain ⟨r, hr, hkey, hdescribes⟩ := h p.key
      (List.mem_append_left _ (List.mem_append_left _ (Dict.mem_keys_of_lookup hlookup)))
    have hpath := hdescribes.packages
    have hname := hdescribes.names
    have hhash := hdescribes.contentHashes
    rw [lookup_packages, hlast] at hpath
    rw [lookup_names, hlast] at hname
    rw [lookup_contentHashes, hq] at hhash
    exact ⟨r, hr, hkey, (Option.some.inj hpath).symm, (Option.some.inj hname).symm, hhash.symm⟩
  · intro h k hk
    obtain ⟨p, hlast⟩ := exists_lastOf hk
    obtain ⟨hp, rfl⟩ := lastOf_eq_some hlast
    have hpath : (fetch repoId packages).packages.lookup p.key = some p.path := by rw [lookup_packages, hlast]; rfl
    have hname : (fetch repoId packages).names.lookup p.key = some p.name := by rw [lookup_names, hlast]; rfl
    have hhash := lookup_contentHashes repoId packages p.key
    cases hp' : p.hash with
    | some v =>
      rw [lastHashed_of_isSome hlast (by rw [hp']; rfl)] at hhash
      exact ⟨p, hp, rfl, hpath, hname, hhash⟩
    | none =>
      cases hq : lastHashed packages p.key with
      | none =>
        rw [hq] at hhash
        exact ⟨p, hp, rfl, hpath, hname, hhash.trans hp'.symm⟩
      | some q =>
        obtain ⟨r, hr, hkey, hrpath, hrname, hrhash⟩ := h p hp hlast hp' q (lastHashed_eq_some hq).1 hq
        rw [hq] at hhash
        exact ⟨r, hr, hkey, hrpath ▸ hpath, hrname ▸ hname, hhash.trans hrhash.symm⟩

/-- The same version twice, the second time under another file and without a hash. -/
def republished : List PackageRef :=
  [⟨"a".toList, "1".toList, some "x".toList, some (List.replicate 64 'f')⟩, ⟨"a".toList, "1".toList, some "y".toList, none⟩]

theorem hash_of_other_entry : ¬ ∀ k ∈ (fetch [] republished).packages.keys ++ (fetch [] republished).names.keys ++
      (fetch [] republished).contentHashes.keys,
    ∃ p ∈ republished, p.key = k ∧ (fetch [] republished).Describes k p := by
  intro h
  obtain ⟨p, hp, -, hdescribes⟩ := h "a-1".toList (by decide)
  have hpath := hdescribes.packages
  have hhash := hdescribes.contentHashes
  have hstored : (fetch [] republished).packages.lookup "a-1".toList = some "y".toList ∧
      (fetch [] republished).contentHashes.lookup "a-1".toList = some (List.replicate 64 'f') := by decide
  rw [hstored.1] at hpath
  rw [hstored.2] at hhash
  simp only [republished, List.mem_cons, List.not_mem_nil, or_false] at hp
  rcases hp with rfl | rfl
  · exact absurd hpath (by decide)
  · exact absurd hhash (by decide)

end RepoWatch
