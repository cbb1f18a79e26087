import Mathlib.Logic.Function.Basic
import RepoWatch.Lib.Run
import RepoWatch.Lib.Table
import RepoWatch.Text
/-!
# Notifications — failure streaks and their alerts

A call records a failure or a success at once and then waits for a delivery, while other calls go on.  The row of a streak
goes with the streak, but a delivery that is on its way does not know.  Alerts are one for each streak exactly as long as
every delivery that succeeds finds its own streak, not yet notified (`one_alert_iff`).
-/
namespace RepoWatch

open Lib

inductive FailureKind where
  | prefetch | gpg | keyExpiry
  deriving DecidableEq

def FailureKind.name : FailureKind → Str
  | prefetch => "prefetch".toList
  | gpg => "gpg".toList
  | keyExpiry => "key_expiry".toList

/-- A row of `failure_state`. -/
structure FailureRow where
  repoId : Str
  kind : FailureKind
  consecutiveFailures : Nat
  lastError : Option Str
  lastFailureAt : Option Str
  notified : Bool
  deriving DecidableEq

def FailureRow.pk (row : FailureRow) : Str × FailureKind := (row.repoId, row.kind)

abbrev FailureState := Table FailureRow (Str × FailureKind) FailureRow.pk

namespace FailureState
variable (state : FailureState)

/-- `bump_failure`: the new count, and whether the streak was notified before. -/
def bumpFailure (repoId : Str) (kind : FailureKind) (errorMessage now : Str) : FailureState × Nat × Bool :=
  let row : FailureRow := match state.get (repoId, kind) with
    | none => ⟨repoId, kind, 1, some errorMessage, some now, false⟩
    | some row => ⟨repoId, kind, row.consecutiveFailures + 1, some errorMessage, some now, row.notified⟩
  (state.upsert row, row.consecutiveFailures, row.notified)

def markFailureNotified (repoId : Str) (kind : FailureKind) : FailureState :=
  state.update (fun row => if row.pk = (repoId, kind) then { row with notified := true } else row) fun row => by
    split <;> rfl

/-- `reset_failure`: whether the streak that ends was notified. -/
def resetFailure (repoId : Str) (kind : FailureKind) : FailureState × Bool :=
  match state.get (repoId, kind) with
  | none => (state, false)
  | some row => (state.delete (repoId, kind), row.notified)

end FailureState

inductive NotifyEvent where
  | failing | recovered | changed | warmStarted | warmCompleted
  deriving DecidableEq

structure NotifyConfig where
  notifyWebhookUrl : Option Str
  notifyEvents : List NotifyEvent
  notifyAfterFailures : Int

def NotifyConfig.enabled (config : NotifyConfig) (event : NotifyEvent) : Bool :=
  config.notifyWebhookUrl.any (fun url => !url.isEmpty) && config.notifyEvents.contains event

/-- The data of an event, without the envelope. -/
structure Notification where
  event : NotifyEvent
  text : Str
  repoId : Str
  kind : FailureKind
  status : Str
  consecutiveFailures : Option Nat := none
  message : Option Str := none

def failingNotification (repoId : Str) (kind : FailureKind) (count : Nat) (message : Str) : Notification where
  event := .failing
  text := "repowatch: ".toList ++ repoId ++ " — ".toList ++ kind.name ++ " has failed ".toList ++ (toString count).toList ++
    " time(s) in a row: ".toList ++ message
  repoId := repoId
  kind := kind
  status := "failing".toList
  consecutiveFailures := some count
  message := some message

def recoveredNotification (repoId : Str) (kind : FailureKind) : Notification where
  event := .recovered
  text := "repowatch: ".toList ++ repoId ++ " — ".toList ++ kind.name ++ " is working again".toList
  repoId := repoId
  kind := kind
  status := "recovered".toList

/-- `record_failure_and_maybe_notify` up to its delivery: what the store holds, and what is sent. -/
def recordFailureAndMaybeNotify (config : NotifyConfig) (state : FailureState) (repoId : Str) (kind : FailureKind)
    (message now : Str) : FailureState × Option Notification :=
  let (state, count, alreadyNotified) := state.bumpFailure repoId kind message now
  (state, if !config.enabled .failing || alreadyNotified || decide ((count : Int) < config.notifyAfterFailures) then none
    else some (failingNotification repoId kind count message))

/-- `record_success_and_maybe_notify` up to its delivery. -/
def recordSuccessAndMaybeNotify (config : NotifyConfig) (state : FailureState) (repoId : Str) (kind : FailureKind) :
    FailureState × Option Notification :=
  let (state, wasNotified) := state.resetFailure repoId kind
  (state, if !wasNotified || !config.enabled .recovered then none else some (recoveredNotification repoId kind))

/-- What a call does after its delivery. -/
def afterDelivery (state : FailureState) (notification : Notification) (sent : Bool) : FailureState :=
  if sent && decide (notification.event = .failing) then
    state.markFailureNotified notification.repoId notification.kind
  else state

/-! ## Interleavings -/

abbrev AlertPair := Str × FailureKind

/-- A call that waits for its delivery; `streak` is the one it was decided in. -/
structure Delivery where
  notification : Notification
  streak : Nat

def Notification.pair (notification : Notification) : AlertPair := (notification.repoId, notification.kind)

/-- The store and the calls on their way.  A streak has the number of the resets before it; `delivered` are the streaks whose
failing alert was delivered, `recovered` the ones for which a recovery was attempted. -/
structure AlertSystem where
  store : FailureState
  pending : List Delivery
  resets : AlertPair → Nat
  delivered : List (AlertPair × Nat)
  recovered : List (AlertPair × Nat)

inductive AlertAction where
  | failure (repoId : Str) (kind : FailureKind) (message now : Str)
  | success (repoId : Str) (kind : FailureKind)
  | resume (i : Nat) (sent : Bool)

namespace AlertSystem

/-- A failure, a success, or the end of the `i`-th delivery. -/
def step (config : NotifyConfig) (s : AlertSystem) : AlertAction → Option AlertSystem
  | .failure repoId kind message now =>
    let (store, notification) := recordFailureAndMaybeNotify config s.store repoId kind message now
    some { s with
      store := store
      pending := s.pending ++ (notification.map fun n => ⟨n, s.resets (repoId, kind)⟩).toList }
  | .success repoId kind =>
    let (store, notification) := recordSuccessAndMaybeNotify config s.store repoId kind
    some { s with
      store := store
      pending := s.pending ++ (notification.map fun n => ⟨n, s.resets (repoId, kind)⟩).toList
      resets := Function.update s.resets (repoId, kind) (s.resets (repoId, kind) + 1)
      recovered := s.recovered ++ (notification.map fun n => (n.pair, s.resets (repoId, kind))).toList }
  | .resume i sent => do
    let delivery ← s.pending[i]?
    return { s with
      store := afterDelivery s.store delivery.notification sent
      pending := s.pending.eraseIdx i
      delivered := s.delivered ++
        if sent && decide (delivery.notification.event = .failing) then [(delivery.notification.pair, delivery.streak)] else [] }

abbrev Runs (config : NotifyConfig) := Run fun s a s' => step config s a = some s'

def new : AlertSystem := ⟨.empty, [], fun _ => 0, [], []⟩

/-- One alert for each streak. -/
structure OneAlert (s : AlertSystem) : Prop where
  once : ∀ pair streak, s.delivered.count (pair, streak) ≤ 1
  flagged : ∀ row ∈ s.store.rows, row.notified = true → (row.pk, s.resets row.pk) ∈ s.delivered
  recovers : ∀ pair streak, streak < s.resets pair → ((pair, streak) ∈ s.recovered ↔ (pair, streak) ∈ s.delivered)

/-- A delivery of a failing alert that succeeds finds the row of its own streak, not yet notified. -/
def Timely (s : AlertSystem) : AlertAction → Prop
  | .resume i true => ∀ delivery, s.pending[i]? = some delivery → delivery.notification.event = .failing →
      delivery.streak = s.resets delivery.notification.pair ∧
      ∃ row, s.store.get delivery.notification.pair = some row ∧ row.notified = false
  | _ => True

/-- Nothing is on its way, and the streaks that stand are notified when their alert was delivered. -/
structure Initial (s : AlertSystem) : Prop where
  idle : s.pending = []
  first : ∀ pair, s.resets pair = 0
  unrecovered : s.recovered = []
  once : s.delivered.Nodup
  standing : ∀ pair streak, (pair, streak) ∈ s.delivered ↔ streak = 0 ∧ ∃ row, s.store.get pair = some row ∧ row.notified = true

end AlertSystem

/-! ## The store -/

namespace FailureState
variable {state : FailureState} {repoId : Str} {kind : FailureKind} {message now : Str} {pair : AlertPair}

def isNotified (state : FailureState) (pair : AlertPair) : Bool := (state.get pair).any FailureRow.notified

theorem isNotified_iff : state.isNotified pair = true ↔ ∃ row, state.get pair = some row ∧ row.notified = true := by
  unfold isNotified
  rw [Option.any_eq_true]

theorem get_bumpFailure : (state.bumpFailure repoId kind message now).1.isNotified pair = state.isNotified pair ∧
    ((state.bumpFailure repoId kind message now).1.get pair).isSome =
      (decide (pair = (repoId, kind)) || (state.get pair).isSome) := by
  have hpk : ∀ count error at' notified, FailureRow.pk ⟨repoId, kind, count, error, at', notified⟩ = (repoId, kind) :=
    fun _ _ _ _ => rfl
  unfold bumpFailure isNotified
  by_cases h : pair = (repoId, kind)
  · subst h
    cases hrow : state.get (repoId, kind) <;> simp [hpk]
  · cases hrow : state.get (repoId, kind) <;> simp [hpk, h]

theorem get_markFailureNotified : (state.markFailureNotified repoId kind).isNotified pair =
      (if pair = (repoId, kind) then (state.get pair).isSome else state.isNotified pair) ∧
    ((state.markFailureNotified repoId kind).get pair).isSome = (state.get pair).isSome := by
  unfold markFailureNotified isNotified
  rw [Table.get_update]
  cases hrow : state.get pair with
  | none => simp
  | some row =>
    have hpk : row.pk = pair := Table.key_of_get hrow
    by_cases h : pair = (repoId, kind) <;> simp [hpk, h]

theorem resetFailure_notified : (state.resetFailure repoId kind).2 = state.isNotified (repoId, kind) := by
  unfold resetFailure isNotified
  cases state.get (repoId, kind) <;> rfl

theorem get_resetFailure : (state.resetFailure repoId kind).1.get pair =
    if pair = (repoId, kind) then none else state.get pair := by
  unfold resetFailure
  cases hrow : state.get (repoId, kind) with
  | none =>
    dsimp only
    split
    · rename_i h
      rw [h, hrow]
    · rfl
  | some row => simp

end FailureState

theorem event_recordFailure {config : NotifyConfig} {state : FailureState} {repoId : Str} {kind : FailureKind}
    {message now : Str} {n : Notification} (h : (recordFailureAndMaybeNotify config state repoId kind message now).2 = some n) :
    n.event = .failing ∧ n.pair = (repoId, kind) := by
  unfold recordFailureAndMaybeNotify at h
  dsimp only at h
  split at h
  · cases h
  · cases h
    exact ⟨rfl, rfl⟩

/-- **A recovery is attempted when the streak that ends is notified.** -/
theorem recordSuccess_eq {config : NotifyConfig} (henabled : config.enabled .recovered = true) (state : FailureState)
    (repoId : Str) (kind : FailureKind) : recordSuccessAndMaybeNotify config state repoId kind =
      ((state.resetFailure repoId kind).1,
        if state.isNotified (repoId, kind) then some (recoveredNotification repoId kind) else none) := by
  unfold recordSuccessAndMaybeNotify
  dsimp only
  rw [FailureState.resetFailure_notified, henabled]
  cases state.isNotified (repoId, kind) <;> rfl

theorem get_afterDelivery (state : FailureState) (n : Notification) (sent : Bool) (pair : AlertPair) :
    (afterDelivery state n sent).isNotified pair =
      (if sent && decide (n.event = .failing) && decide (pair = n.pair) then (state.get pair).isSome
        else state.isNotified pair) ∧
    ((afterDelivery state n sent).get pair).isSome = (state.get pair).isSome := by
  unfold afterDelivery
  cases hsent : (sent && decide (n.event = .failing)) with
  | false => exact ⟨rfl, rfl⟩
  | true =>
    rw [if_pos rfl, Bool.true_and]
    have hmark := @FailureState.get_markFailureNotified state n.repoId n.kind pair
    refine ⟨hmark.1.trans ?_, hmark.2⟩
    simp only [decide_eq_true_eq]
    rfl

namespace AlertSystem
variable {config : NotifyConfig} {s s' s₀ : AlertSystem} {a : AlertAction} {actions : List AlertAction}

/-! ## Steps -/

theorem step_failure (repoId : Str) (kind : FailureKind) (message now : Str) :
    s.step config (.failure repoId kind message now) = some { s with
      store := (s.store.bumpFailure repoId kind message now).1
      pending := s.pending ++ ((recordFailureAndMaybeNotify config s.store repoId kind message now).2.map
        fun n => ⟨n, s.resets (repoId, kind)⟩).toList } := rfl

theorem step_success (henabled : config.enabled .recovered = true) (repoId : Str) (kind : FailureKind) :
    s.step config (.success repoId kind) = some { s with
      store := (s.store.resetFailure repoId kind).1
      pending := s.pending ++ if s.store.isNotified (repoId, kind) then
        [⟨recoveredNotification repoId kind, s.resets (repoId, kind)⟩] else []
      resets := Function.update s.resets (repoId, kind) (s.resets (repoId, kind) + 1)
      recovered := s.recovered ++ if s.store.isNotified (repoId, kind) then
        [((repoId, kind), s.resets (repoId, kind))] else [] } := by
  have hrecord := recordSuccess_eq henabled s.store repoId kind
  rw [step.eq_def]
  dsimp only
  rw [hrecord]
  cases s.store.isNotified (repoId, kind) <;> rfl

theorem step_resume {i : Nat} {sent : Bool} (h : s.step config (.resume i sent) = some s') :
    ∃ delivery, s.pending[i]? = some delivery ∧ s' = { s with
      store := afterDelivery s.store delivery.notification sent
      pending := s.pending.eraseIdx i
      delivered := s.delivered ++ if sent && decide (delivery.notification.event = .failing) then
        [(delivery.notification.pair, delivery.streak)] else [] } := by
  obtain ⟨delivery, hdelivery, hs'⟩ := Option.bind_eq_some_iff.1 h
  exact ⟨delivery, hdelivery, (Option.some.inj hs').symm⟩

theorem le_update (resets : AlertPair → Nat) (pair pair' : AlertPair) :
    resets pair' ≤ Function.update resets pair (resets pair + 1) pair' := by
  by_cases h : pair' = pair
  · subst h
    rw [Function.update_self]
    exact Nat.le_succ _
  · rw [Function.update_of_ne h]

/-! ## What holds in every run -/

/-- Streaks are numbered in order, and a decision of the current streak has its row. -/
structure Numbered (s : AlertSystem) : Prop where
  pending : ∀ d ∈ s.pending, d.notification.event = .failing → d.streak ≤ s.resets d.notification.pair ∧
    (d.streak = s.resets d.notification.pair → (s.store.get d.notification.pair).isSome = true)
  delivered : ∀ pair streak, (pair, streak) ∈ s.delivered → streak ≤ s.resets pair
  recovered : ∀ pair streak, (pair, streak) ∈ s.recovered → streak < s.resets pair

theorem Numbered.step (h : s.Numbered) (henabled : config.enabled .recovered = true)
    (hstep : s.step config a = some s') : s'.Numbered := by
  cases a with
  | failure repoId kind message now =>
    rw [step_failure] at hstep
    cases hstep
    refine ⟨fun d hd hevent => ?_, h.delivered, h.recovered⟩
    dsimp only
    rw [FailureState.get_bumpFailure.2]
    rcases List.mem_append.1 hd with hd | hd
    · obtain ⟨hle, hrow⟩ := h.pending d hd hevent
      exact ⟨hle, fun hcurrent => by rw [hrow hcurrent, Bool.or_true]⟩
    · obtain ⟨n, hn, rfl⟩ := Option.map_eq_some_iff.1 (Option.mem_toList.1 hd)
      dsimp only
      rw [(event_recordFailure hn).2]
      exact ⟨le_rfl, fun _ => by simp⟩
  | success repoId kind =>
    rw [step_success henabled] at hstep
    cases hstep
    refine ⟨fun d hd hevent => ?_, fun pair streak hmem => (h.delivered pair streak hmem).trans (le_update _ _ _),
      fun pair streak hmem => ?_⟩
    · rcases List.mem_append.1 hd with hd | hd
      · obtain ⟨hd, hrow⟩ := h.pending d hd hevent
        refine ⟨hd.trans (le_update _ _ _), fun hcurrent => ?_⟩
        dsimp only at hcurrent ⊢
        rw [FailureState.get_resetFailure]
        by_cases hpair : d.notification.pair = (repoId, kind)
        · rw [hpair, Function.update_self] at hcurrent
          rw [hpair] at hd
          omega
        · rw [Function.update_of_ne hpair] at hcurrent
          rw [if_neg hpair]
          exact hrow hcurrent
      · split at hd
        · cases List.mem_singleton.1 hd
          cases hevent
        · cases hd
    · rcases List.mem_append.1 hmem with hmem | hmem
      · exact lt_of_lt_of_le (h.recovered pair streak hmem) (le_update _ _ _)
      · split at hmem
        · cases List.mem_singleton.1 hmem
          dsimp only
          rw [Function.update_self]
          exact Nat.lt_succ_self _
        · cases hmem
  | resume i sent =>
    obtain ⟨delivery, hdelivery, rfl⟩ := step_resume hstep
    refine ⟨fun d hd hevent => ?_, fun pair streak hmem => ?_, h.recovered⟩
    · obtain ⟨hle, hrow⟩ := h.pending d (List.mem_of_mem_eraseIdx hd) hevent
      refine ⟨hle, fun hcurrent => ?_⟩
      rw [(get_afterDelivery s.store delivery.notification sent d.notification.pair).2]
      exact hrow hcurrent
    · rcases List.mem_append.1 hmem with hmem | hmem
      · exact h.delivered pair streak hmem
      · split at hmem
        · rename_i hsent
          cases List.mem_singleton.1 hmem
          exact (h.pending delivery (List.mem_of_getElem? hdelivery) (of_decide_eq_true (Bool.and_eq_true_iff.1 hsent).2)).1
        · cases hmem

/-! ## What timely deliveries keep -/

/-- The row of a streak is notified exactly when its alert was delivered. -/
structure Acknowledged (s : AlertSystem) : Prop where
  standing : ∀ pair, (pair, s.resets pair) ∈ s.delivered ↔ s.store.isNotified pair = true
  once : s.delivered.Nodup
  recovers : ∀ pair streak, streak < s.resets pair → ((pair, streak) ∈ s.recovered ↔ (pair, streak) ∈ s.delivered)

theorem Acknowledged.oneAlert (h : s.Acknowledged) : s.OneAlert where
  once pair streak := List.nodup_iff_count_le_one.1 h.once (pair, streak)
  flagged row hrow hnotified := (h.standing row.pk).2 (FailureState.isNotified_iff.2 ⟨row, Table.get_of_mem hrow, hnotified⟩)
  recovers := h.recovers

theorem Acknowledged.step (h : s.Acknowledged) (hnumbered : s.Numbered) (henabled : config.enabled .recovered = true)
    (htimely : s.Timely a) (hstep : s.step config a = some s') : s'.Acknowledged := by
  cases a with
  | failure repoId kind message now =>
    rw [step_failure] at hstep
    cases hstep
    exact ⟨fun pair => by rw [FailureState.get_bumpFailure.1]; exact h.standing pair, h.once, h.recovers⟩
  | success repoId kind =>
    rw [step_success henabled] at hstep
    cases hstep
    refine ⟨fun pair => ?_, h.once, fun pair streak hlt => ?_⟩
    · dsimp only
      by_cases hpair : pair = (repoId, kind)
      · subst hpair
        rw [Function.update_self, FailureState.isNotified, FailureState.get_resetFailure, if_pos rfl]
        refine iff_of_false (fun hmem => ?_) Bool.false_ne_true
        have := hnumbered.delivered _ _ hmem
        omega
      · rw [Function.update_of_ne hpair, FailureState.isNotified, FailureState.get_resetFailure, if_neg hpair]
        exact h.standing pair
    · dsimp only at hlt ⊢
      have hended : (pair, streak) ∈ (if s.store.isNotified (repoId, kind) then [((repoId, kind), s.resets (repoId, kind))]
          else []) ↔ pair = (repoId, kind) ∧ streak = s.resets pair ∧ s.store.isNotified pair = true := by
        split
        · rename_i hnotified
          rw [List.mem_singleton, Prod.mk.injEq]
          constructor
          · rintro ⟨rfl, rfl⟩
            exact ⟨rfl, rfl, hnotified⟩
          · rintro ⟨rfl, rfl, -⟩
            exact ⟨rfl, rfl⟩
        · rename_i hnotified
          refine iff_of_false List.not_mem_nil ?_
          rintro ⟨rfl, -, hn⟩
          exact hnotified hn
      rw [List.mem_append, hended]
      by_cases hold : streak < s.resets pair
      · rw [← h.recovers pair streak hold]
        exact ⟨fun hmem => hmem.resolve_right fun he => hold.ne he.2.1, .inl⟩
      · -- the streak that ends now
        have hpair : pair = (repoId, kind) := by
          by_contra hne
          rw [Function.update_of_ne hne] at hlt
          exact hold hlt
        have hstreak : streak = s.resets pair := by
          rw [hpair, Function.update_self] at hlt
          rw [hpair] at hold ⊢
          omega
        rw [hstreak, h.standing pair]
        refine ⟨fun hmem => ?_, fun hn => .inr ⟨hpair, rfl, hn⟩⟩
        rcases hmem with hmem | hmem
        · exact absurd (hnumbered.recovered _ _ hmem) (lt_irrefl _)
        · exact hmem.2.2
  | resume i sent =>
    obtain ⟨delivery, hdelivery, rfl⟩ := step_resume hstep
    have hget := get_afterDelivery s.store delivery.notification sent
    cases hsent : (sent && decide (delivery.notification.event = .failing)) with
    | false =>
      refine ⟨fun pair => ?_, ?_, fun pair streak hlt => ?_⟩
      · dsimp only
        rw [(hget pair).1, hsent, Bool.false_and, if_neg Bool.false_ne_true, if_neg Bool.false_ne_true, List.append_nil]
        exact h.standing pair
      · simpa using h.once
      · simpa using h.recovers pair streak hlt
    | true =>
      obtain ⟨hsent', hevent⟩ := Bool.and_eq_true_iff.1 hsent
      subst hsent'
      obtain ⟨hstreak, row, hrow, hnotified⟩ := htimely delivery hdelivery (of_decide_eq_true hevent)
      have hnew : (delivery.notification.pair, delivery.streak) ∉ s.delivered := by
        rw [hstreak, h.standing, FailureState.isNotified, hrow]
        simpa using hnotified
      refine ⟨fun pair => ?_, ?_, fun pair streak hlt => ?_⟩
      · dsimp only
        rw [(hget pair).1, hsent, Bool.true_and, if_pos rfl, List.mem_append, h.standing, List.mem_singleton, Prod.mk.injEq]
        by_cases hpair : pair = delivery.notification.pair
        · subst hpair
          simp [hrow, hstreak]
        · simp [hpair]
      · dsimp only
        rw [if_pos rfl]
        exact List.nodup_append.2 ⟨h.once, List.nodup_singleton _, fun x hx y hy he => hnew (by
          rw [← List.mem_singleton.1 hy, ← he]
          exact hx)⟩
      · dsimp only at hlt ⊢
        rw [h.recovers pair streak hlt, if_pos rfl, List.mem_append, List.mem_singleton, Prod.mk.injEq]
        refine ⟨.inl, fun hmem => hmem.resolve_right ?_⟩
        rintro ⟨rfl, rfl⟩
        omega

/-! ## Runs -/

theorem Initial.numbered (h : s.Initial) : s.Numbered where
  pending d hd := by
    rw [h.idle] at hd
    cases hd
  delivered pair streak hmem := by
    rw [((h.standing pair streak).1 hmem).1]
    exact Nat.zero_le _
  recovered pair streak hmem := by
    rw [h.unrecovered] at hmem
    cases hmem

theorem Initial.acknowledged (h : s.Initial) : s.Acknowledged where
  standing pair := by
    rw [h.first, h.standing, FailureState.isNotified_iff]
    exact and_iff_right rfl
  once := h.once
  recovers pair streak hlt := by
    rw [h.first] at hlt
    cases hlt

theorem numbered_run (henabled : config.enabled .recovered = true) (h₀ : s₀.Initial) (hrun : Runs config s₀ actions s) :
    s.Numbered :=
  hrun.invariant Numbered (fun _ _ _ h hstep => h.step henabled hstep) h₀.numbered

theorem acknowledged_run (henabled : config.enabled .recovered = true) (h₀ : s₀.Initial)
    (htimely : ∀ before a after s', actions = before ++ a :: after → Runs config s₀ before s' → s'.Timely a)
    (hrun : Runs config s₀ actions s) : s.Acknowledged := by
  refine hrun.history (fun before s' => (∃ after, actions = before ++ after) → s'.Acknowledged)
    (fun _ => h₀.acknowledged) ?_ ⟨[], (List.append_nil _).symm⟩
  rintro before s₁ a s₂ hbefore ih hstep ⟨after, hafter⟩
  have hcut : actions = before ++ a :: after := hafter.trans (List.append_assoc _ _ _)
  exact (ih ⟨_, hcut⟩).step (numbered_run henabled h₀ hbefore) henabled (htimely before a after s₁ hcut hbefore) hstep

/-- **A delivery that is not timely breaks the rule at once**: it is a second alert of its streak, or an alert of a streak that
ended without a recovery. -/
theorem timely_of_oneAlert (hnumbered : s.Numbered) (h : s.OneAlert) (hstep : s.step config a = some s') (h' : s'.OneAlert) :
    s.Timely a := by
  match a with
  | .failure .. => trivial
  | .success .. => trivial
  | .resume i false => trivial
  | .resume i true =>
    intro delivery hdelivery hevent
    obtain ⟨delivery', hdelivery', rfl⟩ := step_resume hstep
    obtain rfl := Option.some.inj (hdelivery.symm.trans hdelivery')
    rw [hevent, decide_eq_true rfl, Bool.and_self, if_pos rfl] at h'
    -- a streak has one alert, so this one is its first
    have hnew : (delivery.notification.pair, delivery.streak) ∉ s.delivered := by
      intro hmem
      have hcount := h'.once delivery.notification.pair delivery.streak
      have hpos := List.count_pos_iff.2 hmem
      dsimp only at hcount
      rw [List.count_append, List.count_singleton_self] at hcount
      omega
    obtain ⟨hle, hrow⟩ := hnumbered.pending delivery (List.mem_of_getElem? hdelivery) hevent
    have hcurrent : delivery.streak = s.resets delivery.notification.pair := by
      by_contra hne
      have hlt := lt_of_le_of_ne hle hne
      exact hnew ((h.recovers _ _ hlt).1 ((h'.recovers _ _ hlt).2 (List.mem_append_right _ (List.mem_singleton_self _))))
    refine ⟨hcurrent, ?_⟩
    obtain ⟨row, hrow⟩ := Option.isSome_iff_exists.1 (hrow hcurrent)
    refine ⟨row, hrow, Bool.eq_false_iff.2 fun hnotified => hnew ?_⟩
    have hflagged := h.flagged row (Table.mem_of_get hrow) hnotified
    have hpk : row.pk = delivery.notification.pair := Table.key_of_get hrow
    rwa [hcurrent, ← hpk]

/-- **Every state of a run has one alert for each streak exactly when every delivery of the run is timely.** -/
theorem one_alert_iff (hrecovered : config.enabled .recovered = true) (h₀ : s₀.Initial) (hrun : Runs config s₀ actions s) :
    (∀ before after s', actions = before ++ after → Runs config s₀ before s' → s'.OneAlert) ↔
      ∀ before a after s', actions = before ++ a :: after → Runs config s₀ before s' → s'.Timely a := by
  constructor
  · intro halert before a after s' hcut hbefore
    rw [hcut] at hrun
    obtain ⟨s₁, s₂, h₁, hstep, -⟩ := hrun.step_of_mem
    obtain rfl : s₁ = s' := Option.some.inj ((run_iff_foldlM.1 h₁).symm.trans (run_iff_foldlM.1 hbefore))
    refine timely_of_oneAlert (numbered_run hrecovered h₀ hbefore) (halert before _ s₁ hcut hbefore) hstep ?_
    exact halert (before ++ [a]) after s₂ (by rw [hcut, List.append_assoc]; rfl) (h₁.snoc hstep)
  · intro htimely before after s' hcut hbefore
    refine (acknowledged_run hrecovered h₀ (fun pre a post s₁ hpre h₁ => ?_) hbefore).oneAlert
    exact htimely pre a (post ++ after) s₁ (by rw [hcut, hpre, List.append_assoc]; rfl) h₁

theorem new_initial : new.Initial where
  idle := rfl
  first _ := rfl
  unrecovered := rfl
  once := List.nodup_nil
  standing pair streak := by
    refine iff_of_false List.not_mem_nil ?_
    rintro ⟨-, row, hrow, -⟩
    cases hrow

/-- Webhooks are on, and one failure is enough. -/
def onFirst : NotifyConfig := ⟨some "https://hooks.example/x".toList, [.failing, .recovered], 1⟩

/-- Two warms of one repository fail at once, and both alerts are delivered. -/
def concurrentFailures : List AlertAction :=
  let failure := AlertAction.failure "noble".toList .prefetch "HTTP 502".toList "2025-01-01".toList
  [failure, failure, .resume 0 true, .resume 0 true]

theorem concurrentFailures_run : ∃ s, Runs onFirst new concurrentFailures s ∧ ¬ s.OneAlert := by
  have hcount : (concurrentFailures.foldlM (step onFirst) new).map
      (fun s => s.delivered.count (("noble".toList, .prefetch), 0)) = some 2 := by decide +kernel
  obtain ⟨s, hs, hcount⟩ := Option.map_eq_some_iff.1 hcount
  refine ⟨s, run_iff_foldlM.2 hs, fun h => ?_⟩
  have hle := h.once ("noble".toList, .prefetch) 0
  omega

theorem one_alert_iff_concurrent : ∃ before a after s', concurrentFailures = before ++ a :: after ∧
    Runs onFirst new before s' ∧ ¬ s'.Timely a := by
  obtain ⟨s, hrun, hs⟩ := concurrentFailures_run
  by_contra hnone
  push Not at hnone
  exact hs ((one_alert_iff (by decide) new_initial hrun).2 hnone _ [] s (List.append_nil _).symm hrun)

/-- Two calls that fail while neither alert is delivered yet both decide to send one. -/
theorem failing_twice : ¬ ∀ (config : NotifyConfig) (s₀ s : AlertSystem) (actions : List AlertAction),
    config.enabled .failing = true → config.enabled .recovered = true → s₀.Initial → Runs config s₀ actions s → s.OneAlert := by
  intro h
  obtain ⟨s, hrun, hs⟩ := concurrentFailures_run
  exact hs (h onFirst new s concurrentFailures (by decide) (by decide) new_initial hrun)

end AlertSystem
end RepoWatch
