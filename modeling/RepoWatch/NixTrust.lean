import Mathlib.Data.Finset.Dedup
import RepoWatch.CacheStore
import RepoWatch.NixStore
/-!
# NixTrust — when a check or a warm distrusts what was warmed before

A check cycle and a warm both hand the settings of their repository to `update_nix_trust`, which compares them with what
the call before has left.  A check names the upstream and a warm does not, so what a call does is decided by the one
before it: `lookup_run` says what that one left, and `agrees_iff` compares the two.
-/
namespace RepoWatch

open Lib

/-- The two call sites of `update_nix_trust`: a check cycle that has recorded its snapshot, and a warm. -/
inductive NixCall where
  | checkIndex (repo : NixRepo)
  | warm (repo : NixRepo) (force : Bool)

namespace NixCall

def entry : NixCall → NixRepo
  | checkIndex repo => repo
  | warm repo _ => repo

def repoId (c : NixCall) : Str := c.entry.repo.id

/-- `if not force and not repo.prefetch: return {}`. -/
def runs : NixCall → Bool
  | checkIndex _ => true
  | warm repo force => force || repo.repo.prefetch

/-- The policy that the call site encodes. -/
def policy : NixCall → TrustPolicy
  | checkIndex repo => trustPolicy repo.verifySignature repo.nixPublicKeys (some repo.repo.upstream)
  | warm repo _ => trustPolicy repo.verifySignature repo.nixPublicKeys none

/-- The signature check or the set of trusted keys is another one. -/
def KeysChanged (p c : NixCall) : Prop :=
  p.entry.verifySignature ≠ c.entry.verifySignature ∨
    p.entry.nixPublicKeys.toFinset ≠ c.entry.nixPublicKeys.toFinset

/-- One of the three settings is another one. -/
def Changed (p c : NixCall) : Prop := p.KeysChanged c ∨ p.entry.repo.upstream ≠ c.entry.repo.upstream

end NixCall

/-- A call, or whatever else is written to the database between calls. -/
inductive NixStep where
  | call (c : NixCall) (revision : Str × Str → Str)
  | write (db : Database)

namespace NixStore

/-- The trust check of `check_index` and of `cache.nix.warm`. -/
def trustCheck (store : NixStore) (revision : Str × Str → Str) : NixCall → NixStore
  | .checkIndex repo =>
    store.updateNixTrust repo.repo.id repo.verifySignature repo.nixPublicKeys (some repo.repo.upstream) revision
  | .warm repo force =>
    if !force && !repo.repo.prefetch then store
    else store.updateNixTrust repo.repo.id repo.verifySignature repo.nixPublicKeys none revision

/-- What `check_index` then hands to the warm: the demanded packages that are not accepted as warm already. -/
def retry (store : NixStore) (repoId : Str) (packages : Dict Str Str) (interested : List Str) : List (Str × Str) :=
  packages.rows.filter fun p =>
    decide (p.1 ∈ interested) && !(store.db.warmedPackages.get (repoId, p.1)).any WarmedRow.ok

def step (store : NixStore) : NixStep → NixStore
  | .call c revision => store.trustCheck revision c
  | .write db => { store with db := db }

def run (store : NixStore) (steps : List NixStep) : NixStore := steps.foldl step store

end NixStore

theorem trustPolicy_inj {v v' : Bool} {ks ks' : List Str} {s s' : Option Str} :
    trustPolicy v ks s = trustPolicy v' ks' s' ↔ v = v' ∧ ks.toFinset = ks'.toFinset ∧ s = s' := by
  unfold trustPolicy
  rw [TrustPolicy.mk.injEq]
  refine and_congr_right fun _ => and_congr_left fun _ => ?_
  constructor
  · intro h
    ext k
    have hmem := congrArg (k ∈ ·) h
    simpa only [mem_sortedStr, List.mem_dedup, List.mem_toFinset, eq_iff_iff] using hmem
  · intro h
    have hperm : ks.dedup.Perm ks'.dedup := by
      refine (List.perm_ext_iff_of_nodup ks.nodup_dedup ks'.nodup_dedup).2 fun k => ?_
      rw [List.mem_dedup, List.mem_dedup, ← List.mem_toFinset, h, List.mem_toFinset]
    exact ((List.perm_insertionSort _ _).trans (hperm.trans (List.perm_insertionSort _ _).symm)).eq_of_pairwise
      (fun _ _ _ _ => le_antisymm) (pairwise_sortedStr _) (pairwise_sortedStr _)

namespace NixCall
variable {p c : NixCall}

/-- What the call before must be for the settings to decide: two checks always agree, two warms unless the upstream alone
has changed, and a check and a warm only when some setting has. -/
def Agrees : NixCall → NixCall → Prop
  | checkIndex _, checkIndex _ => True
  | warm p force, warm c force' => (warm p force).KeysChanged (warm c force') ∨ p.repo.upstream = c.repo.upstream
  | p, c => p.Changed c

theorem keysChanged_iff : p.KeysChanged c ↔ ¬ (p.entry.verifySignature = c.entry.verifySignature ∧
    p.entry.nixPublicKeys.toFinset = c.entry.nixPublicKeys.toFinset) := by
  unfold KeysChanged
  tauto

/-- **Two calls agree** exactly when their policies differ if and only if their settings do. -/
theorem agrees_iff : p.Agrees c ↔ (p.policy ≠ c.policy ↔ p.Changed c) := by
  cases p with
  | checkIndex p =>
    cases c with
    | checkIndex c =>
      have hinj : trustPolicy p.verifySignature p.nixPublicKeys (some p.repo.upstream) =
          trustPolicy c.verifySignature c.nixPublicKeys (some c.repo.upstream) ↔ _ := trustPolicy_inj
      simp only [Agrees, Changed, keysChanged_iff, policy, entry, ne_eq, hinj, Option.some.injEq, true_iff]
      tauto
    | warm c force =>
      have hinj : trustPolicy p.verifySignature p.nixPublicKeys (some p.repo.upstream) =
          trustPolicy c.verifySignature c.nixPublicKeys none ↔ _ := trustPolicy_inj
      simp [Agrees, policy, hinj]
  | warm p force =>
    cases c with
    | checkIndex c =>
      have hinj : trustPolicy p.verifySignature p.nixPublicKeys none =
          trustPolicy c.verifySignature c.nixPublicKeys (some c.repo.upstream) ↔ _ := trustPolicy_inj
      simp [Agrees, policy, hinj]
    | warm c force' =>
      have hinj : trustPolicy p.verifySignature p.nixPublicKeys none =
          trustPolicy c.verifySignature c.nixPublicKeys none ↔ _ := trustPolicy_inj
      simp only [Agrees, Changed, keysChanged_iff, policy, entry, ne_eq, hinj]
      tauto

end NixCall

namespace NixStore
variable {store : NixStore} {c p : NixCall} {revision : Str × Str → Str}

theorem trustCheck_eq (h : c.runs = true) : store.trustCheck revision c =
    if store.distrusts c.repoId c.policy then
      ⟨store.db.failWarmed c.repoId revision, store.nixTrust.set c.repoId c.policy⟩
    else store := by
  cases c with
  | checkIndex repo => rfl
  | warm repo force =>
    unfold NixCall.runs at h
    have hskip : (!force && !repo.repo.prefetch) = false := by
      cases force
      · simpa using h
      · rfl
    unfold trustCheck
    dsimp only
    rw [hskip]
    rfl

theorem trustCheck_of_not_runs (h : c.runs = false) : store.trustCheck revision c = store := by
  cases c with
  | checkIndex repo => cases h
  | warm repo force =>
    simp only [NixCall.runs, Bool.or_eq_false_iff] at h
    unfold trustCheck
    dsimp only
    rw [h.1, h.2]
    rfl

/-- A call leaves its policy, and no other repository's. -/
theorem lookup_trustCheck (h : c.runs = true) (r : Str) : (store.trustCheck revision c).nixTrust.lookup r =
    if r = c.repoId then some c.policy else store.nixTrust.lookup r := by
  rw [trustCheck_eq h]
  split
  · exact Dict.lookup_set ..
  · rename_i hsame
    simp only [distrusts, decide_eq_true_eq, ne_eq, not_not] at hsame
    split
    · rename_i hr
      rw [hr, hsame]
    · rfl

/-- The last call of a repository among the steps. -/
def LastCall (steps : List NixStep) (r : Str) (p : NixCall) : Prop :=
  ∃ before revision others, steps = before ++ .call p revision :: others ∧ p.repoId = r ∧ p.runs = true ∧
    ∀ c' revision', .call c' revision' ∈ others → c'.runs = true → c'.repoId ≠ r

theorem lookup_run_others {r : Str} : ∀ (others : List NixStep) (store : NixStore),
    (∀ c' revision', .call c' revision' ∈ others → c'.runs = true → c'.repoId ≠ r) →
    (store.run others).nixTrust.lookup r = store.nixTrust.lookup r
  | [], _, _ => rfl
  | x :: others, store, h => by
    have hrest := lookup_run_others others (store.step x) fun c' revision' hm => h c' revision' (List.mem_cons_of_mem _ hm)
    rw [run, List.foldl_cons]
    refine hrest.trans ?_
    cases x with
    | write db => rfl
    | call c revision =>
      rw [step]
      cases hruns : c.runs with
      | false => rw [trustCheck_of_not_runs hruns]
      | true => rw [lookup_trustCheck hruns, if_neg (Ne.symm (h c revision List.mem_cons_self hruns))]

/-- **The stored policy** is that of the last call. -/
theorem lookup_run {steps : List NixStep} {r : Str} (h : LastCall steps r p) :
    (store.run steps).nixTrust.lookup r = some p.policy := by
  obtain ⟨before, revision, others, rfl, hid, hruns, hothers⟩ := h
  rw [run, List.foldl_append, List.foldl_cons]
  rw [show ∀ s : NixStore, (others.foldl step s).nixTrust.lookup r = s.nixTrust.lookup r from
    fun s => lookup_run_others others s hothers]
  rw [step, lookup_trustCheck hruns, if_pos hid.symm]

/-! ## What a call does to the warm records -/

/-- A call distrusts exactly when a setting has changed since the call before; then every warm record of its repository
is failed, so that every demanded package is warmed again, and otherwise nothing is touched. -/
structure Rechecks (store : NixStore) (revision : Str × Str → Str) (p c : NixCall) : Prop where
  distrusts : store.distrusts c.repoId c.policy = true ↔ p.Changed c
  failed : p.Changed c → ∀ row ∈ (store.trustCheck revision c).db.warmedPackages.rows,
    row.repoId = c.repoId → row.ok = false
  retried : p.Changed c → ∀ packages interested, (store.trustCheck revision c).retry c.repoId packages interested =
    packages.rows.filter fun q => decide (q.1 ∈ interested)
  kept : ¬ p.Changed c → (store.trustCheck revision c).db = store.db

theorem failWarmed_failed (db : Database) {row : WarmedRow} {r : Str}
    (hrow : row ∈ (db.failWarmed r revision).warmedPackages.rows) (hid : row.repoId = r) : row.ok = false := by
  rw [Table.mem_rows_iff, Database.get_failWarmed] at hrow
  obtain ⟨old, hold, rfl⟩ := Option.map_eq_some_iff.1 hrow
  unfold Database.failedRow at hid ⊢
  split
  · rfl
  · rename_i hne
    rw [if_neg hne] at hid
    exact absurd hid hne

theorem rechecks_of_distrusts (hruns : c.runs = true) (h : store.distrusts c.repoId c.policy = true ↔ p.Changed c) :
    store.Rechecks revision p c := by
  have hfailed : p.Changed c → ∀ row ∈ (store.trustCheck revision c).db.warmedPackages.rows,
      row.repoId = c.repoId → row.ok = false := by
    intro hchanged row hrow hid
    rw [trustCheck_eq hruns, if_pos (h.2 hchanged)] at hrow
    exact failWarmed_failed store.db hrow hid
  refine ⟨h, hfailed, fun hchanged packages interested => ?_, fun hsame => ?_⟩
  · unfold retry
    congr 1
    funext q
    cases hget : (store.trustCheck revision c).db.warmedPackages.get (c.repoId, q.1) with
    | none => simp
    | some row =>
      obtain ⟨hrow, hpk⟩ := Table.get_eq_some_iff.1 hget
      simp [hfailed hchanged row hrow (Prod.mk.inj hpk).1]
  · rw [trustCheck_eq hruns, if_neg fun hd => hsame (h.1 hd)]

/-- **Trust changes only when the settings change**, for every call of a run that has a call before it, exactly when every
such call agrees with the one before it. -/
theorem trust_run_iff (store : NixStore) (steps : List NixStep) :
    (∀ before c revision after p, steps = before ++ .call c revision :: after → c.runs = true →
      LastCall before c.repoId p → (store.run before).Rechecks revision p c) ↔
    ∀ before c revision after p, steps = before ++ .call c revision :: after → c.runs = true →
      LastCall before c.repoId p → p.Agrees c := by
  refine forall_congr' fun before => forall_congr' fun c => forall_congr' fun revision => forall_congr' fun after =>
    forall_congr' fun p => forall_congr' fun _ => forall_congr' fun hruns => forall_congr' fun hlast => ?_
  have hdistrusts : (store.run before).distrusts c.repoId c.policy = true ↔ p.policy ≠ c.policy := by
    rw [distrusts, decide_eq_true_eq, lookup_run hlast, ne_eq, Option.some.injEq]
  rw [NixCall.agrees_iff, ← hdistrusts]
  exact ⟨fun h => h.distrusts, fun h => rechecks_of_distrusts hruns h⟩

def plainNix : NixRepo where
  repo :=
    { id := "n".toList
      type := .nix
      upstream := "http://h".toList
      arch := "x86_64-linux".toList
      nixSource := some "http://h/nixpkgs.tar.gz".toList
      expands := rfl }
  verifySignature := false
  nixPublicKeys := []
  nixMaxPaths := 100

/-- A store whose one package is warm, as a check of its repository has left it. -/
def checkedWarm : NixStore :=
  run ⟨.empty, .empty⟩ [.call (.checkIndex plainNix) (fun _ => "0".toList),
    .write (Database.empty.recordWarmedPackage "n".toList "k".toList "f".toList true (some 200) "prefetch".toList [] [])]

/-- A warm under the same settings fails the package that the check accepted. -/
theorem warm_distrusts_check : ¬ (NixCall.checkIndex plainNix).Changed (.warm plainNix true) ∧
    ((checkedWarm.db.warmedPackages.get ("n".toList, "k".toList)).map WarmedRow.ok = some true) ∧
    (((checkedWarm.trustCheck (fun _ => "1".toList) (.warm plainNix true)).db.warmedPackages.get
      ("n".toList, "k".toList)).map WarmedRow.ok = some false) := by
  refine ⟨?_, by decide, by decide⟩
  unfold NixCall.Changed NixCall.KeysChanged
  simp [NixCall.entry]

end NixStore
end RepoWatch
