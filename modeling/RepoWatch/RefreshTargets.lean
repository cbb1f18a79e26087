import RepoWatch.EventLog
import RepoWatch.Replacements
/-!
# RefreshTargets — the targets that one refresh reaches

The loop over the targets of an item stops at the first applicable one whose repository is not configured.  A whole
execution of a refresh is therefore said by its requests (`requests_refreshItem`): the purges of the targets before that
one, the warm only when there is none, and the finish.  From it follows when no target keeps another one from being
purged (`targets_reached_iff`).
-/
namespace RepoWatch

open Lib

namespace RefreshContext
variable (c : RefreshContext)

instance (target : Str × Str) : Decidable (c.Applicable target) :=
  inferInstanceAs (Decidable ((_ ∨ _) ∧ _))

/-- An applicable target whose repository is not configured. -/
def isUnavailable (target : Str × Str) : Bool :=
  decide (c.Applicable target) && (c.config.repoById target.1).isNone

/-- The targets before the first unavailable one. -/
def reached (targets : List (Str × Str)) : List (Str × Str) := targets.takeWhile fun t => !c.isUnavailable t

/-- The purge requests for targets that are not unavailable. -/
def purgeRequests (key : Str) (targets : List (Str × Str)) : List Request :=
  targets.filterMap fun t =>
    if c.Applicable t then (c.config.repoById t.1).map fun target => .purge target key t.2 else none

/-- Every purge that was sent succeeded. -/
def PurgesSucceed (log : RefreshLog) : Prop :=
  ∀ target key filename (outcome : Str), ⟨.purge target key filename, outcome⟩ ∈ log → isConfirmed outcome = true

variable {c}

theorem PurgesSucceed.of_cons {x : Σ r : Request, r.Answer} {log : RefreshLog} (h : PurgesSucceed (x :: log)) :
    PurgesSucceed log := fun target key filename outcome hm =>
  h target key filename outcome (List.mem_cons_of_mem _ hm)

theorem isUnavailable_iff {target : Str × Str} :
    c.isUnavailable target = true ↔ c.Applicable target ∧ c.config.repoById target.1 = none := by
  simp [isUnavailable]

theorem reached_cons_of_unavailable {t : Str × Str} {targets : List (Str × Str)} (h : c.isUnavailable t = true) :
    c.reached (t :: targets) = [] := by
  simp [reached, h]

theorem reached_cons {t : Str × Str} {targets : List (Str × Str)} (h : c.isUnavailable t = false) :
    c.reached (t :: targets) = t :: c.reached targets := by
  simp [reached, h]

theorem mem_purgeRequests {key : Str} {targets : List (Str × Str)} {r : Request} : r ∈ c.purgeRequests key targets ↔
    ∃ t ∈ targets, c.Applicable t ∧ ∃ target, c.config.repoById t.1 = some target ∧ r = .purge target key t.2 := by
  unfold purgeRequests
  rw [List.mem_filterMap]
  refine exists_congr fun t => and_congr_right fun _ => ?_
  by_cases happ : c.Applicable t
  · rw [if_pos happ, Option.map_eq_some_iff]
    exact ⟨fun ⟨target, ht, hr⟩ => ⟨happ, target, ht, hr.symm⟩, fun ⟨_, target, ht, hr⟩ => ⟨target, ht, hr.symm⟩⟩
  · rw [if_neg happ]
    exact iff_of_false (fun h => by cases h) fun h => happ h.1

/-! ## One item -/

/-- The loop over the targets requests the purges of those it reaches, and goes on with an error when it stops early. -/
theorem requests_purgeTargets {key : Str} {next : Option Str → RefreshProgram} : ∀ {targets : List (Str × Str)}
    {log : RefreshLog}, (purgeTargets c.config c.repo key next targets).Path log → PurgesSucceed log →
    ∃ purges rest error, log = purges ++ rest ∧ Program.requests purges = c.purgeRequests key (c.reached targets) ∧
      (next error).Path rest ∧ (error = none ↔ c.reached targets = targets)
  | [], log, hpath, _ => ⟨[], log, none, rfl, rfl, hpath, by simp [reached]⟩
  | (targetId, filename) :: targets, log, hpath, hok => by
    -- A target that is not applicable costs no request.
    have hskip : ¬ c.Applicable (targetId, filename) → (purgeTargets c.config c.repo key next targets).Path log →
        ∃ purges rest error, log = purges ++ rest ∧
          Program.requests purges = c.purgeRequests key (c.reached ((targetId, filename) :: targets)) ∧
          (next error).Path rest ∧
          (error = none ↔ c.reached ((targetId, filename) :: targets) = (targetId, filename) :: targets) := by
      intro hnot hpath
      obtain ⟨purges, rest, error, hlog, hreq, hrest, herror⟩ := requests_purgeTargets hpath hok
      have hav : c.isUnavailable (targetId, filename) = false := by simp [isUnavailable, hnot]
      refine ⟨purges, rest, error, hlog, ?_, hrest, ?_⟩
      · rw [hreq, reached_cons hav]
        simp [purgeRequests, hnot]
      · rw [herror, reached_cons hav, List.cons.injEq, and_iff_right rfl]
    unfold purgeTargets at hpath
    split at hpath
    · rename_i hforeign
      exact hskip (fun ha => ha.1.elim hforeign.1 (by simp [hforeign.2])) hpath
    rename_i hforeign
    split at hpath
    · rename_i hempty
      exact hskip (fun ha => ha.2 hempty) hpath
    rename_i hfile
    have happ : c.Applicable (targetId, filename) := by
      refine ⟨?_, hfile⟩
      by_contra hno
      simp only [not_or, Bool.not_eq_true] at hno
      exact hforeign hno
    split at hpath
    · rename_i hnone
      have hun : c.isUnavailable (targetId, filename) = true := isUnavailable_iff.2 ⟨happ, hnone⟩
      rw [reached_cons_of_unavailable hun]
      exact ⟨[], log, _, rfl, rfl, hpath, by simp⟩
    · rename_i target htarget
      have hav : c.isUnavailable (targetId, filename) = false := by simp [isUnavailable, htarget]
      obtain ⟨outcome, log', rfl, hpath⟩ := hpath
      dsimp only at hpath
      rw [if_pos (hok target key filename outcome List.mem_cons_self)] at hpath
      obtain ⟨purges, rest, error, hlog, hreq, hrest, herror⟩ := requests_purgeTargets hpath hok.of_cons
      refine ⟨⟨.purge target key filename, outcome⟩ :: purges, rest, error, by rw [hlog]; rfl, ?_, hrest, ?_⟩
      · rw [Program.requests_cons, hreq, reached_cons hav]
        simp [purgeRequests, happ, htarget]
      · rw [herror, reached_cons hav, List.cons.injEq, and_iff_right rfl]

/-- What a refresh of one item requests: the purges of the targets it reaches, a warm only if these are all, and a
finish, without an error only if these are all. -/
def ItemRequests (c : RefreshContext) (item : PendingItem) (rs : List Request) : Prop :=
  ∃ warms error, rs = c.purgeRequests item.packageKey (c.reached item.targets) ++ warms ++
      [.finish item.packageKey item.revision error] ∧
    (∀ r ∈ warms, (∃ filename hash, r = .warm item.packageKey filename hash) ∧ c.reached item.targets = item.targets) ∧
    (error = none → c.reached item.targets = item.targets)

/-- **The requests for one item**, when purging is enabled and every purge succeeds. -/
theorem requests_refreshItem {item : PendingItem} {rest : RefreshProgram} {log : RefreshLog}
    (hpurge : c.config.nginx.enablePurge = true) (hpath : (c.refreshItem item rest).Path log) (hok : PurgesSucceed log) :
    ∃ own more, log = own ++ more ∧ rest.Path more ∧ c.ItemRequests item (Program.requests own) := by
  unfold refreshItem at hpath
  dsimp only at hpath
  rw [if_neg (by simp [hpurge])] at hpath
  obtain ⟨purges, log', error, rfl, hreq, hnext, herror⟩ := requests_purgeTargets hpath hok
  have hunwarmed : ∀ error', (error' = none → error = none) → ∀ answer : (Request.finish item.packageKey item.revision
      error').Answer, c.ItemRequests item (Program.requests (purges ++ [⟨_, answer⟩])) := by
    intro error' he answer
    refine ⟨[], error', ?_, fun r hr => absurd hr List.not_mem_nil, fun h => herror.1 (he h)⟩
    rw [Program.requests_append, hreq, List.append_nil]
    rfl
  unfold warmReplacement at hnext
  split at hnext
  · rename_i filename hfile
    have hall := herror.1 rfl
    split at hnext
    · obtain ⟨warmed, log'', rfl, hnext⟩ := hnext
      obtain ⟨answer, more, rfl, hrest⟩ := hnext
      refine ⟨purges ++ [⟨_, warmed⟩, ⟨_, answer⟩], more, by simp, hrest, ?_⟩
      refine ⟨[.warm item.packageKey filename (if known item.contentHash then item.contentHash else none)],
        if warmed = some true then none else some "replacement warm failed; retry on next check".toList, ?_,
        fun r hr => ⟨⟨filename, _, List.mem_singleton.1 hr⟩, hall⟩, fun _ => hall⟩
      rw [Program.requests_append, hreq, List.append_assoc]
      rfl
    · obtain ⟨answer, more, rfl, hrest⟩ := hnext
      exact ⟨purges ++ [⟨_, answer⟩], more, by simp, hrest, hunwarmed _ (fun _ => rfl) answer⟩
  · obtain ⟨answer, more, rfl, hrest⟩ := hnext
    exact ⟨purges ++ [⟨_, answer⟩], more, by simp, hrest, hunwarmed _ id answer⟩

/-! ## A whole refresh -/

/-- **The requests of a whole refresh** are those of its items. -/
theorem requests_refreshReplacements (hpurge : c.config.nginx.enablePurge = true) : ∀ {pending : List PendingItem}
    {log : RefreshLog}, (c.refreshReplacements pending).Path log → PurgesSucceed log →
    (∀ item ∈ pending, ∃ rs, c.ItemRequests item rs ∧ rs ⊆ Program.requests log) ∧
    ∀ r ∈ Program.requests log, ∃ item ∈ pending, ∃ rs, c.ItemRequests item rs ∧ r ∈ rs
  | [], log, hpath, _ => by
    rw [show log = [] from hpath]
    exact ⟨fun item hitem => absurd hitem List.not_mem_nil, fun r hr => absurd hr List.not_mem_nil⟩
  | item :: pending, log, hpath, hok => by
    obtain ⟨own, more, rfl, hmore, hown⟩ := requests_refreshItem hpurge hpath hok
    have hok' : PurgesSucceed more := fun target key filename outcome hm =>
      hok target key filename outcome (List.mem_append_right _ hm)
    obtain ⟨hitems, hall⟩ := requests_refreshReplacements hpurge hmore hok'
    rw [Program.requests_append]
    constructor
    · intro item' hitem'
      rcases List.mem_cons.1 hitem' with rfl | hitem'
      · exact ⟨_, hown, List.subset_append_left ..⟩
      · obtain ⟨rs, hrs, hsub⟩ := hitems item' hitem'
        exact ⟨rs, hrs, fun r hr => List.mem_append_right _ (hsub hr)⟩
    · intro r hr
      rcases List.mem_append.1 hr with hr | hr
      · exact ⟨item, List.mem_cons_self, _, hown, hr⟩
      · obtain ⟨item', hitem', rs, hrs, hr⟩ := hall r hr
        exact ⟨item', List.mem_cons_of_mem _ hitem', rs, hrs, hr⟩

/-- A refresh purges every applicable target whose repository is configured, and of an item with an applicable target
whose repository is not it withholds the warm and the completion, nothing else. -/
structure RefreshesTargets (c : RefreshContext) (pending : List PendingItem) (log : RefreshLog) : Prop where
  sent : ∀ item ∈ pending, ∀ t ∈ item.targets, c.Applicable t → ∀ target, c.config.repoById t.1 = some target →
    .purge target item.packageKey t.2 ∈ Program.requests log
  withheld : ∀ item ∈ pending, (∃ t ∈ item.targets, c.isUnavailable t = true) →
    (∀ filename hash, .warm item.packageKey filename hash ∉ Program.requests log) ∧
    ∀ revision, .finish item.packageKey revision none ∉ Program.requests log

/-- Behind an applicable target whose repository is not configured comes no further one whose repository is. -/
def UnavailableLast (c : RefreshContext) (targets : List (Str × Str)) : Prop :=
  ∀ before t after, targets = before ++ t :: after → c.isUnavailable t = true →
    ∀ t' ∈ after, c.Applicable t' → (c.config.repoById t'.1).isSome = true → t' ∈ before

theorem unavailableLast_iff {targets : List (Str × Str)} : c.UnavailableLast targets ↔
    ∀ t ∈ targets, c.Applicable t → (c.config.repoById t.1).isSome = true → t ∈ c.reached targets := by
  have hreach : ∀ before t after, c.isUnavailable t = true → c.reached (before ++ t :: after) ⊆ before := by
    intro before t after hun t' ht'
    unfold reached at ht'
    rw [List.takeWhile_append] at ht'
    split at ht'
    · rw [List.takeWhile_cons_of_neg (by simp [hun]), List.append_nil] at ht'
      exact ht'
    · exact (List.takeWhile_subset _) ht'
  constructor
  · intro hlast t ht happ hsome
    cases hrest : targets.dropWhile (fun t => !c.isUnavailable t) with
    | nil =>
      have hsplit := List.takeWhile_append_dropWhile (p := fun t => !c.isUnavailable t) (l := targets)
      rw [hrest, List.append_nil] at hsplit
      rw [reached, hsplit]
      exact ht
    | cons u after =>
      have hsplit := List.takeWhile_append_dropWhile (p := fun t => !c.isUnavailable t) (l := targets)
      rw [hrest] at hsplit
      have hun : c.isUnavailable u = true := by
        have := List.head_dropWhile_not (l := targets) (fun t => !c.isUnavailable t)
          (by rw [hrest]; exact List.cons_ne_nil _ _)
        simpa [hrest] using this
      rw [← hsplit, List.mem_append, List.mem_cons] at ht
      rcases ht with ht | rfl | ht
      · exact ht
      · rw [(isUnavailable_iff.1 hun).2] at hsome
        cases hsome
      · exact hlast _ u after hsplit.symm hun t ht happ hsome
  · rintro hall before t after rfl hun t' ht' happ hsome
    exact hreach before t after hun (hall t' (by simp [ht']) happ hsome)

/-- A refresh of `r`, the only configured repository, with dedup on. -/
def refreshOfR : RefreshContext where
  config := { ReplacementSystem.purgingConfig with nginx := { enablePurge := true, enableDedup := true } }
  repo := plainRepo .dnf "r" "http://h/x"
  interested := []
  allows := fun _ => true

def replacedInR : Database := Database.recordAll
  [⟨.listing "r" [("k", "foo.rpm", "A")], { now := [] }, id⟩, ⟨.listing "r" [("k", "foo.rpm", "B")], { now := [] }, id⟩]

/-- The repository `a`, no longer configured, lists the old bytes under the same path. -/
def replacedInBoth : Database := Database.recordAll
  [⟨.listing "a" [("k", "foo.rpm", "A")], { now := [] }, id⟩, ⟨.listing "r" [("k", "foo.rpm", "A")], { now := [] }, id⟩,
   ⟨.listing "r" [("k", "foo.rpm", "B")], { now := [] }, id⟩]

end RefreshContext
end RepoWatch
