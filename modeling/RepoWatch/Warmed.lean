import RepoWatch.Lib.Run
import RepoWatch.Repositories
import RepoWatch.CacheStore
/-!
# Warmed — what a warm record still says after the catalog has moved on

Snapshots, warm records and finished replacements share a key's rows.  `Observed` adds to the database what no column
holds: the catalog after each snapshot, and for each warm record the generation its file name was taken from and the one
in which it was written.  `warmed_ok_run` says in which ways a record can outlive the content it vouches for.
-/
namespace RepoWatch

open Lib

/-- A database, the generations of its catalog, where each warm record comes from (the generation observed and the
generation of the write), and in which generations replacements of a key were finished. -/
structure Observed where
  db : Database
  generations : List Database
  origin : Str × Str → Nat × Nat
  finished : Str × Str → List Nat

inductive CatalogOp where
  | snapshot (s : RepoSnapshot) (m : CheckMeta) (uuid : Str → Str)
  | warm (generation : Nat) (repoId key filename : Str) (ok : Bool) (httpStatus : Option Int) (source now revision : Str)
  | finish (repoId key revision : Str) (error : Option Str)

namespace Observed

def initial : Observed := ⟨.empty, [.empty], fun _ => (0, 0), fun _ => []⟩

/-- The row of a key in a generation. -/
def listing (st : Observed) (i : Nat) (pk : Str × Str) : Option PackageRow :=
  (st.generations[i]?).bind fun db => db.repoPackages.get pk

/-- The generation in force. -/
def now (st : Observed) : Nat := st.generations.length - 1

/-- One operation; a warm record takes its file name from a generation that lists the key under it. -/
def step (st : Observed) : CatalogOp → Option Observed
  | .snapshot s m uuid =>
    let db := (st.db.recordSnapshot s m uuid).1
    some { st with db := db, generations := st.generations ++ [db] }
  | .warm generation repoId key filename ok httpStatus source now revision =>
    if (st.listing generation (repoId, key)).map PackageRow.filename = some filename then
      some { st with
        db := st.db.recordWarmedPackage repoId key filename ok httpStatus source now revision
        origin := fun pk => if pk = (repoId, key) then (generation, st.now) else st.origin pk }
    else none
  | .finish repoId key revision error =>
    let db := st.db.finishReplacement repoId key revision error
    some { st with
      db := db
      finished := fun pk =>
        if pk = (repoId, key) ∧ (db.pendingReplacements.get pk).isNone then st.now :: st.finished pk else st.finished pk }

abbrev Reached (ops : List CatalogOp) (st : Observed) : Prop := Run (fun st op st' => step st op = some st') initial ops st

/-- The hash of a key in a generation, when it is known. -/
def knownHash (st : Observed) (i : Nat) (pk : Str × Str) : Option Str :=
  (st.listing i pk).bind fun r => r.contentHash.filter (· ≠ [])

/-- The last hash known for a key up to a generation. -/
def lastKnownHash (st : Observed) (pk : Str × Str) : Nat → Option Str
  | 0 => st.knownHash 0 pk
  | i + 1 => (st.knownHash (i + 1) pk).or (st.lastKnownHash pk i)

/-- The snapshot after generation `i` modified the key. -/
def replacedAfter (st : Observed) (i : Nat) (pk : Str × Str) : Bool :=
  match st.listing i pk, st.listing (i + 1) pk with
  | some old, some new => isModified old new.filename new.contentHash
  | _, _ => false

/-- The hash known for the key now is the one known when the record's content was observed, as far as both are. -/
def sameHash (st : Observed) (pk : Str × Str) : Prop :=
  st.lastKnownHash pk st.now = st.lastKnownHash pk (st.origin pk).1 ∨ st.lastKnownHash pk st.now = none ∨
    st.lastKnownHash pk (st.origin pk).1 = none

instance (st : Observed) (pk : Str × Str) : Decidable (st.sameHash pk) := by unfold sameHash; infer_instance

/-! ## Generations -/

/-- The generations of a state, the last of which is the catalog of its database. -/
structure Current (st : Observed) : Prop where
  nonempty : 0 < st.generations.length
  last : ∀ pk, st.listing st.now pk = st.db.repoPackages.get pk

variable {st st' : Observed}

theorem listing_snapshot {s : RepoSnapshot} {m : CheckMeta} {uuid : Str → Str}
    (h : step st (.snapshot s m uuid) = some st') (pk : Str × Str) :
    (∀ i, i < st.generations.length → st'.listing i pk = st.listing i pk) ∧
    st'.listing st.generations.length pk = (st.db.recordSnapshot s m uuid).1.repoPackages.get pk := by
  cases h
  refine ⟨fun i hi => ?_, ?_⟩
  · unfold listing
    rw [List.getElem?_append_left hi]
  · unfold listing
    simp

theorem isModified_self (r : PackageRow) : isModified r r.filename r.contentHash = false := by simp [isModified]

/-- **What a snapshot replaces** is what it finds modified: the key gets a queued replacement and loses its record. -/
theorem replacedAfter_snapshot {s : RepoSnapshot} {m : CheckMeta} {uuid : Str → Str} (hc : st.Current)
    (h : step st (.snapshot s m uuid) = some st') {pk : Str × Str} (hr : st'.replacedAfter st.now pk = true) :
    st'.db.warmedPackages.get pk = none ∧ (st'.db.pendingReplacements.get pk).isSome := by
  obtain ⟨hold, hnew⟩ := listing_snapshot h pk
  have hlen : st.now + 1 = st.generations.length := by have := hc.nonempty; unfold now; omega
  unfold replacedAfter at hr
  rw [hlen, hold st.now (by omega), hnew, hc.last] at hr
  obtain ⟨r, k⟩ := pk
  rw [Database.get_repoPackages_recordSnapshot] at hr
  cases h
  by_cases hid : r = s.repoId
  · subst hid
    rw [if_pos rfl] at hr
    cases hprev : st.db.repoPackages.get (s.repoId, k) with
    | none => rw [hprev] at hr; cases hr
    | some old =>
      cases hlook : s.packages.lookup k with
      | none => rw [hprev, hlook] at hr; cases hr
      | some filename =>
        rw [hprev, hlook] at hr
        have hmod : k ∈ s.modifiedKeys st.db := RepoSnapshot.mem_modifiedKeys.2 ⟨filename, old, hlook, hprev, hr⟩
        have hprev' : s.previous st.db k = some old := hprev
        dsimp only
        rw [Database.get_warmedPackages_recordSnapshot, Database.get_pendingReplacements_recordSnapshot,
          if_pos ⟨rfl, hmod⟩, if_pos ⟨rfl, hmod⟩, hprev', hlook]
        exact ⟨rfl, rfl⟩
  · rw [if_neg hid] at hr
    cases hg : st.db.repoPackages.get (r, k) with
    | none => rw [hg] at hr; cases hr
    | some old => rw [hg] at hr; simp [isModified_self] at hr

/-! ## The invariant -/

/-- A record was written from a listing under its file name, and no snapshot since the write replaced its key. -/
def OriginOk (st : Observed) (pk : Str × Str) : Prop :=
  ∀ row, st.db.warmedPackages.get pk = some row →
    (st.origin pk).1 ≤ (st.origin pk).2 ∧ (st.origin pk).2 < st.generations.length ∧
    (∃ r, st.listing (st.origin pk).1 pk = some r ∧ r.filename = row.filename) ∧
    ∀ i, (st.origin pk).2 ≤ i → i + 1 < st.generations.length → st.replacedAfter i pk = false

/-- A replaced key still has its replacement queued, or one was finished after it was replaced. -/
def QueuedOrFinished (st : Observed) (pk : Str × Str) : Prop :=
  ∀ i, i + 1 < st.generations.length → st.replacedAfter i pk = true →
    (st.db.pendingReplacements.get pk).isSome ∨ ∃ g ∈ st.finished pk, i < g

structure Inv (st : Observed) : Prop where
  current : st.Current
  origin : ∀ pk, st.OriginOk pk
  queued : ∀ pk, st.QueuedOrFinished pk

theorem inv_initial : initial.Inv where
  current := ⟨Nat.one_pos, fun _ => rfl⟩
  origin := fun pk row h => by cases h
  queued := fun pk i hi _ => absurd hi (by simp [initial])

theorem inv_snapshot {s : RepoSnapshot} {m : CheckMeta} {uuid : Str → Str} (h : st.Inv)
    (hs : step st (.snapshot s m uuid) = some st') : st'.Inv := by
  have hl := fun pk => listing_snapshot hs pk
  have hrep : ∀ pk, st'.replacedAfter st.now pk = true → _ ∧ _ := fun pk => replacedAfter_snapshot h.current hs
  have hlen : st'.generations.length = st.generations.length + 1 := by cases hs; simp
  have hnow : st.now + 1 = st.generations.length := by have := h.current.nonempty; unfold now; omega
  have hsame : ∀ pk i, i + 1 < st.generations.length → st'.replacedAfter i pk = st.replacedAfter i pk := fun pk i hi => by
    unfold replacedAfter
    rw [(hl pk).1 i (by omega), (hl pk).1 (i + 1) hi]
  have hwarm : ∀ r k, st'.db.warmedPackages.get (r, k) = if r = s.repoId ∧ k ∈ s.modifiedKeys st.db then none
      else st.db.warmedPackages.get (r, k) := fun r k => by
    cases hs
    exact Database.get_warmedPackages_recordSnapshot ..
  have hpend : ∀ pk, (st.db.pendingReplacements.get pk).isSome → (st'.db.pendingReplacements.get pk).isSome := by
    rintro ⟨r, k⟩ hp
    cases hs
    dsimp only
    rw [Database.get_pendingReplacements_recordSnapshot]
    split
    · rename_i hm
      obtain ⟨filename, old, hf, ho, -⟩ := RepoSnapshot.mem_modifiedKeys.1 hm.2
      rw [ho, hf]
      rfl
    · exact hp
  constructor
  · refine ⟨by omega, fun pk => ?_⟩
    have : st'.now = st.generations.length := by unfold now; omega
    rw [this, (hl pk).2]
    cases hs
    rfl
  · rintro ⟨r, k⟩ row hrow
    have hold : st.db.warmedPackages.get (r, k) = some row := by
      rw [hwarm] at hrow
      split at hrow
      · cases hrow
      · exact hrow
    have horigin : st'.origin = st.origin := by cases hs; rfl
    obtain ⟨h1, h2, ⟨p, hp, hpf⟩, h4⟩ := h.origin (r, k) row hold
    rw [horigin]
    refine ⟨h1, by omega, ⟨p, by rw [(hl _).1 _ (by omega)]; exact hp, hpf⟩, fun i hi hi' => ?_⟩
    by_cases hlast : i + 1 = st.generations.length
    · obtain rfl : i = st.now := by omega
      by_contra hne
      have := (hrep (r, k) (by simpa using hne)).1
      rw [hrow] at this
      cases this
    · rw [hsame (r, k) i (by omega)]
      exact h4 i hi (by omega)
  · intro pk i hi hr
    by_cases hlast : i + 1 = st.generations.length
    · obtain rfl : i = st.now := by omega
      exact Or.inl (hrep pk hr).2
    · rw [hsame pk i (by omega)] at hr
      rcases h.queued pk i (by omega) hr with hp | hf
      · exact Or.inl (hpend pk hp)
      · refine Or.inr ?_
        cases hs
        exact hf

theorem inv_warm {generation : Nat} {repoId key filename : Str} {ok : Bool} {httpStatus : Option Int}
    {source now revision : Str} (h : st.Inv)
    (hs : step st (.warm generation repoId key filename ok httpStatus source now revision) = some st') : st'.Inv := by
  unfold step at hs
  dsimp only at hs
  split at hs
  · rename_i hlist
    cases hs
    obtain ⟨r, hr, hf⟩ := Option.map_eq_some_iff.1 hlist
    refine ⟨⟨h.current.nonempty, h.current.last⟩, fun pk row hrow => ?_, h.queued⟩
    rw [Database.get_recordWarmedPackage] at hrow
    by_cases hpk : pk = (repoId, key)
    · subst hpk
      rw [if_pos rfl, Option.some.injEq] at hrow
      subst hrow
      have hlt : generation < st.generations.length := by
        by_contra hge
        unfold listing at hr
        rw [List.getElem?_eq_none (by omega)] at hr
        cases hr
      have hnow : st.now + 1 = st.generations.length := by have := h.current.nonempty; unfold Observed.now; omega
      dsimp only
      rw [if_pos rfl]
      exact ⟨by omega, by omega, ⟨r, hr, hf⟩, fun i hi hi' => by omega⟩
    · rw [if_neg hpk] at hrow
      dsimp only
      rw [if_neg hpk]
      exact h.origin pk row hrow
  · cases hs

theorem inv_finish {repoId key revision : Str} {error : Option Str} (h : st.Inv)
    (hs : step st (.finish repoId key revision error) = some st') : st'.Inv := by
  cases hs
  refine ⟨⟨h.current.nonempty, fun pk => ?_⟩, fun pk row hrow => h.origin pk row ?_, fun pk i hi hr => ?_⟩
  · dsimp only
    rw [Database.finishReplacement_repoPackages]
    exact h.current.last pk
  · simpa using hrow
  · have hnow : i < st.now := by
      have hi : i + 1 < st.generations.length := hi
      unfold now
      omega
    dsimp only
    rcases h.queued pk i hi hr with hp | ⟨g, hg, hig⟩
    · cases hgone : (st.db.finishReplacement repoId key revision error).pendingReplacements.get pk with
      | some row => exact Or.inl rfl
      | none =>
        rw [Database.get_finishReplacement] at hgone
        by_cases hpk : pk = (repoId, key)
        · rw [if_pos ⟨hpk, rfl⟩]
          exact Or.inr ⟨st.now, List.mem_cons_self, hnow⟩
        · rw [if_neg hpk] at hgone
          rw [hgone] at hp
          cases hp
    · refine Or.inr ?_
      split
      · exact ⟨g, List.mem_cons_of_mem _ hg, hig⟩
      · exact ⟨g, hg, hig⟩

theorem inv_of_reached {ops : List CatalogOp} (h : Reached ops st) : st.Inv := by
  refine h.invariant Inv (fun st op st' hi hs => ?_) inv_initial
  cases op with
  | snapshot s m uuid => exact inv_snapshot hi hs
  | warm => exact inv_warm hi hs
  | finish => exact inv_finish hi hs

/-! ## What a record says -/

/-- While a key stays listed and is not replaced, its path stays, and so does its hash while it is known. -/
theorem listing_chain {pk : Str × Str} {j : Nat} {r : PackageRow} (hr : st.listing j pk = some r) (n : Nat)
    (hlisted : ∀ i, j < i → i ≤ j + n → ∃ r, st.listing i pk = some r)
    (hkept : ∀ i, j ≤ i → i < j + n → st.replacedAfter i pk = false) :
    ∃ r', st.listing (j + n) pk = some r' ∧ r'.filename = r.filename ∧
      ((∀ i, j ≤ i → i ≤ j + n → ∃ h, st.knownHash i pk = some h) →
        st.knownHash (j + n) pk = st.knownHash j pk) := by
  induction n with
  | zero => exact ⟨r, hr, rfl, fun _ => rfl⟩
  | succ n ih =>
    obtain ⟨r₁, h₁, hf₁, hh₁⟩ := ih (fun i hi hi' => hlisted i hi (by omega)) (fun i hi hi' => hkept i hi (by omega))
    obtain ⟨r₂, h₂⟩ := hlisted (j + (n + 1)) (by omega) (by omega)
    have hkeep := hkept (j + n) (by omega) (by omega)
    unfold replacedAfter at hkeep
    rw [h₁, show j + n + 1 = j + (n + 1) by omega, h₂] at hkeep
    simp only [isModified, Bool.or_eq_false_iff, decide_eq_false_iff_not, not_not, Bool.and_eq_false_iff] at hkeep
    obtain ⟨hfile, hhash⟩ := hkeep
    refine ⟨r₂, h₂, hfile.trans hf₁, fun hall => ?_⟩
    rw [← hh₁ (fun i hi hi' => hall i hi (by omega))]
    have hknown : ∀ i r, st.listing i pk = some r → (∃ h, st.knownHash i pk = some h) →
        known r.contentHash = true ∧ st.knownHash i pk = r.contentHash := fun i r hl ⟨h, hk⟩ => by
      unfold knownHash at hk ⊢
      rw [hl, Option.bind_some, Option.filter_eq_some_iff] at hk
      rw [hl, Option.bind_some, hk.1, known_some]
      have hne : h ≠ [] := by simpa using hk.2
      exact ⟨hne, by simp [hne]⟩
    obtain ⟨hk₁, he₁⟩ := hknown _ r₁ h₁ (hall (j + n) (by omega) (by omega))
    obtain ⟨hk₂, he₂⟩ := hknown _ r₂ h₂ (hall (j + (n + 1)) (by omega) (by omega))
    rcases hhash with (h | h) | h
    · rw [hk₁] at h; cases h
    · rw [hk₂] at h; cases h
    · rw [he₁, he₂, h]

theorem lastKnownHash_of_known {pk : Str × Str} {i : Nat} {h : Str} (hk : st.knownHash i pk = some h) :
    st.lastKnownHash pk i = some h := by
  cases i with
  | zero => exact hk
  | succ i => rw [lastKnownHash, hk]; rfl

/-- **A content change hides behind an old warm record only in these ways.**  In every run, a record of whatever status for
a key of the current catalog has a replacement queued, or the key was missing from the index in some generation after
the one observed, or the record was written after a replacement newer than its observation and that replacement has been
finished, or its file name is the current one and so is its hash, unless the key was listed without a hash in some
generation from the one observed on. -/
theorem warmed_ok_run {ops : List CatalogOp} {st : Observed} (h : Reached ops st) (pk : Str × Str)
    (row : WarmedRow) (cur : PackageRow) (hrow : st.db.warmedPackages.get pk = some row)
    (hcur : st.db.repoPackages.get pk = some cur) :
    (st.db.pendingReplacements.get pk).isSome ∨
    (∃ i, (st.origin pk).1 < i ∧ i ≤ st.now ∧ st.listing i pk = none) ∨
    (∃ i, (st.origin pk).1 ≤ i ∧ i < (st.origin pk).2 ∧ st.replacedAfter i pk = true ∧ ∃ g ∈ st.finished pk, i < g) ∨
    row.filename = cur.filename ∧
      (st.sameHash pk ∨ ∃ i, (st.origin pk).1 ≤ i ∧ i ≤ st.now ∧ st.knownHash i pk = none) := by
  have hinv := inv_of_reached h
  obtain ⟨hjw, hw, ⟨r, hr, hf⟩, hsince⟩ := hinv.origin pk row hrow
  have hnow : st.now + 1 = st.generations.length := by have := hinv.current.nonempty; unfold now; omega
  by_cases hgone : ∃ i, (st.origin pk).1 < i ∧ i ≤ st.now ∧ st.listing i pk = none
  · exact Or.inr (Or.inl hgone)
  by_cases hstale : ∃ i, (st.origin pk).1 ≤ i ∧ i < (st.origin pk).2 ∧ st.replacedAfter i pk = true
  · obtain ⟨i, h1, h2, h3⟩ := hstale
    rcases hinv.queued pk i (by omega) h3 with hq | hg
    · exact Or.inl hq
    · exact Or.inr (Or.inr (Or.inl ⟨i, h1, h2, h3, hg⟩))
  have hlen : (st.origin pk).1 + (st.now - (st.origin pk).1) = st.now := by omega
  obtain ⟨r', hr', hf', hh⟩ := listing_chain hr (st.now - (st.origin pk).1)
    (fun i hi hi' => Option.ne_none_iff_exists'.1 fun hn => hgone ⟨i, hi, by omega, hn⟩)
    (fun i hi hi' => by
      by_cases hiw : i < (st.origin pk).2
      · exact Bool.eq_false_iff.2 fun ht => hstale ⟨i, hi, hiw, ht⟩
      · exact hsince i (by omega) (by omega))
  rw [hlen] at hr' hh
  rw [hinv.current.last, hcur, Option.some.injEq] at hr'
  refine Or.inr (Or.inr (Or.inr ⟨by rw [← hf, ← hf', hr'], ?_⟩))
  by_cases hlost : ∃ i, (st.origin pk).1 ≤ i ∧ i ≤ st.now ∧ st.knownHash i pk = none
  · exact Or.inr hlost
  have hall : ∀ i, (st.origin pk).1 ≤ i → i ≤ st.now → ∃ h, st.knownHash i pk = some h := fun i h1 h2 =>
    Option.ne_none_iff_exists'.1 fun hn => hlost ⟨i, h1, h2, hn⟩
  obtain ⟨g, hg⟩ := hall st.now (by omega) le_rfl
  refine Or.inl (Or.inl ?_)
  rw [lastKnownHash_of_known hg, lastKnownHash_of_known ((hh fun i h1 h2 => hall i h1 (by omega)) ▸ hg)]

/-- The key is warmed with hash `A`, disappears, and comes back with hash `B`. -/
def relistedRun : List CatalogOp :=
  [.snapshot (.listing "r" [("k", "f", "A")]) { now := [] } (fun _ => []),
   .warm 1 "r".toList "k".toList "f".toList true (some 200) "client".toList [] "0".toList,
   .snapshot (.listing "r" []) { now := [] } (fun _ => []),
   .snapshot (.listing "r" [("k", "f", "B")]) { now := [] } (fun _ => [])]

def relisted : Observed := (relistedRun.foldlM step initial).getD initial

theorem reached_relisted : Reached relistedRun relisted := run_iff_foldlM.2 rfl

/-- The record of `relistedRun` has no replacement queued and another hash: without the exceptions of `warmed_ok_run` the
statement is false. -/
theorem warmed_ok_relisted : ¬ ∀ (ops : List CatalogOp) (st : Observed), Reached ops st → ∀ pk row cur,
    st.db.warmedPackages.get pk = some row → row.ok = true → st.db.repoPackages.get pk = some cur →
    (st.db.pendingReplacements.get pk).isSome ∨ (row.filename = cur.filename ∧ st.sameHash pk) := by
  intro h
  have := h relistedRun relisted reached_relisted ("r".toList, "k".toList)
    ⟨"r".toList, "k".toList, "f".toList, [], true, some 200, some "client".toList, "0".toList⟩
    ⟨"r".toList, "k".toList, none, "f".toList, some "B".toList⟩ (by decide) rfl (by decide)
  revert this
  decide

/-- The record of `relistedRun` is there because its key was missing in generation 2. -/
theorem warmed_ok_run_relisted : (relisted.db.pendingReplacements.get ("r".toList, "k".toList)).isSome ∨
    (∃ i, (relisted.origin ("r".toList, "k".toList)).1 < i ∧ i ≤ relisted.now ∧
      relisted.listing i ("r".toList, "k".toList) = none) ∨
    (∃ i, (relisted.origin ("r".toList, "k".toList)).1 ≤ i ∧ i < (relisted.origin ("r".toList, "k".toList)).2 ∧
      relisted.replacedAfter i ("r".toList, "k".toList) = true ∧
      ∃ g ∈ relisted.finished ("r".toList, "k".toList), i < g) ∨
    "f".toList = "f".toList ∧ (relisted.sameHash ("r".toList, "k".toList) ∨
      ∃ i, (relisted.origin ("r".toList, "k".toList)).1 ≤ i ∧ i ≤ relisted.now ∧
        relisted.knownHash i ("r".toList, "k".toList) = none) :=
  warmed_ok_run reached_relisted ("r".toList, "k".toList)
    ⟨"r".toList, "k".toList, "f".toList, [], true, some 200, some "client".toList, "0".toList⟩
    ⟨"r".toList, "k".toList, none, "f".toList, some "B".toList⟩ (by decide) (by decide)

end Observed
end RepoWatch
