import Mathlib.Logic.Function.Basic
import RepoWatch.Lib.TextFile
import RepoWatch.Config
/-!
# Apply — publishing a rendered configuration

`applyRendered` is `apply` from the digest of the rendered texts on: five files are written one after another, tested and
reloaded; a failure rolls back what was written, and a success keeps what was there before.  `_write` renames a complete
temporary file over its target, so it has its effect or raises and changes nothing.  Which calls raise is the parameter
`Faults`.  Files hold bytes; the program reads and writes them as text.
-/
namespace RepoWatch

open Lib TextFile

/-- The managed files. -/
inductive Managed where
  | active | purge | dedup | probeConf | probeJs
  deriving DecidableEq

/-- `outputs`. -/
def outputs : List Managed := [.active, .purge, .dedup, .probeConf, .probeJs]

/-- The paths of `files`. -/
def publishOrder : List Managed := [.purge, .dedup, .probeConf, .probeJs, .active]

theorem mem_outputs (m : Managed) : m ∈ outputs := by cases m <;> decide

theorem mem_publishOrder (m : Managed) : m ∈ publishOrder := by cases m <;> decide

/-- What the status file says; `δ` is the type of digests. -/
inductive Status (δ : Type) where
  | applied (active : δ) (inputs : Option δ)
  | failed (candidate : δ) (rollbackFailed : Bool)

/-- The directory of the policy file: the managed files, their `previous-*` copies and the status file. -/
structure Directory (δ : Type) where
  managed : Managed → Option Bytes
  previous : Managed → Option Bytes
  status : Option (Status δ)

/-- What a text that the program renders is on disk. -/
def fileOf (text : Str) : Bytes := encode (ofChars text)

section Digests
variable {δ : Type} (digest : List Bytes → δ)

/-- `rendered_digest`; `digest` is the SHA-256 of the joined SHA-256 digests of the contents. -/
def renderedDigest (contents : List Str) : δ := digest (contents.map fileOf)

/-- `output_digest`: none when a file cannot be read. -/
def outputDigest (files : List (Option Bytes)) : Option δ := (files.mapM id).map digest

end Digests

/-- The calls of one run that raise. -/
structure Faults where
  publish : Managed → Bool := fun _ => false
  test : Bool := false
  reload : Bool := false
  restore : Managed → Bool := fun _ => false
  retest : Bool := false
  rereload : Bool := false
  backup : Managed → Bool := fun _ => false
  status : Bool := false

/-- How `apply` ends. -/
inductive Exit where
  | disabled
  | matched
  | unchanged
  | applied
  | raised (e : Error)
  | osError
  | databaseError
  deriving DecidableEq

/-- What `apply` returns, if it returns. -/
def Exit.returns : Exit → Option Bool
  | disabled | matched | unchanged => some false
  | applied => some true
  | _ => none

/-- How a run ends, what it leaves, and whether it wrote a managed file. -/
structure Outcome (δ : Type) where
  exit : Exit
  dir : Directory δ
  wrote : Bool

section Apply
variable {δ : Type}

/-- The loop over `files`: the paths that are published, and whether a write raised. -/
def publish (faults : Faults) (candidate : Managed → Str) : List Managed → Directory δ → List Managed × Bool × Directory δ
  | [], d => ([], false, d)
  | m :: ms, d =>
    if faults.publish m then ([], true, d)
    else
      let next := publish faults candidate ms { d with managed := Function.update d.managed m (some (fileOf (candidate m))) }
      (m :: next.1, next.2)

/-- The loop over `reversed(published)`: whether a write or an unlink raised. -/
def rollback (faults : Faults) (old : Managed → Option Text) : List Managed → Directory δ → Bool × Directory δ
  | [], d => (false, d)
  | m :: ms, d =>
    if faults.restore m then (true, (rollback faults old ms d).2)
    else rollback faults old ms { d with managed := Function.update d.managed m ((old m).map encode) }

/-- The writes of `previous-*`: whether one raised. -/
def keepPrevious (faults : Faults) (old : Managed → Option Text) : List Managed → Directory δ → Bool × Directory δ
  | [], d => (false, d)
  | m :: ms, d =>
    match old m with
    | none => keepPrevious faults old ms d
    | some text =>
      if faults.backup m then (true, d)
      else keepPrevious faults old ms { d with previous := Function.update d.previous m (some (encode text)) }

/-- The texts of the managed files. -/
def Directory.texts (d : Directory δ) (m : Managed) : Option Text := (d.managed m).map read

/-- `json.loads(status.read_text()).get('ok') is True`. -/
def Directory.successful (d : Directory δ) : Bool :=
  match d.status with
  | some (.applied _ _) => true
  | _ => false

/-- The managed files read as the candidate, after a successful transaction. -/
def alreadyPublished (force : Bool) (candidate : Managed → Str) (d : Directory δ) : Bool :=
  outputs.all (fun m => d.texts m = some (ofChars (candidate m))) && !force && d.successful

variable [DecidableEq δ] (digest : List Bytes → δ)

/-- `apply`, once the candidate is rendered; `inputs` and `again` are what `input_digest` returns before and after. -/
def applyRendered (faults : Faults) (force : Bool) (inputs again : Option δ) (candidate : Managed → Str)
    (d : Directory δ) : Outcome δ :=
  let rendered := renderedDigest digest (outputs.map candidate)
  let stable := if inputs = again then inputs else none
  if alreadyPublished force candidate d then
    if faults.status then ⟨.osError, d, false⟩
    else ⟨.unchanged, { d with status := some (.applied rendered stable) }, false⟩
  else
    let (published, raised, d₁) := publish faults candidate publishOrder d
    if raised || faults.test || faults.reload then
      let (errors, d₂) := rollback faults d.texts published.reverse d₁
      -- the test and the reload are repeated only when every file was restored
      let errors := errors || ((d.texts .active).isSome && (faults.retest || faults.rereload))
      let d₃ := if faults.status then d₂ else { d₂ with status := some (.failed rendered errors) }
      let message := if errors then "nginx apply and rollback failed; inspect journal"
        else "nginx apply failed; previous configuration restored"
      ⟨.raised (.configError message.toList), d₃, !published.isEmpty⟩
    else
      let (raised, d₂) := keepPrevious faults d.texts outputs d₁
      if raised || faults.status then ⟨.osError, d₂, true⟩
      else ⟨.applied, { d₂ with status := some (.applied rendered stable) }, true⟩

end Apply

/-! ## The three loops -/

section Loops
variable {δ : Type} {faults : Faults}

/-- **Publishing** writes the candidate up to the first file whose write raises. -/
theorem publish_spec (candidate : Managed → Str) : ∀ (ms : List Managed) (d : Directory δ),
    publish faults candidate ms d = (ms.takeWhile (fun m => !faults.publish m), ms.any faults.publish,
      { d with managed := fun m =>
          if m ∈ ms.takeWhile (fun m => !faults.publish m) then some (fileOf (candidate m)) else d.managed m })
  | [], d => by simp [publish]
  | m :: ms, d => by
    unfold publish
    cases hm : faults.publish m with
    | true => simp [hm]
    | false =>
      rw [if_neg (by simp), publish_spec candidate ms]
      simp only [List.takeWhile_cons, List.any_cons, hm, Bool.not_false, if_true, Bool.false_or, List.mem_cons]
      congr 3
      funext x
      by_cases hx : x = m
      · subst hx
        simp
      · simp [hx]

/-- **Rolling back** restores the given files when none of its writes raises. -/
theorem rollback_spec (hrestore : ∀ m, faults.restore m = false) (old : Managed → Option Text) :
    ∀ (ms : List Managed) (d : Directory δ), rollback faults old ms d =
      (false, { d with managed := fun m => if m ∈ ms then (old m).map encode else d.managed m })
  | [], d => by simp [rollback]
  | m :: ms, d => by
    unfold rollback
    rw [if_neg (by simp [hrestore]), rollback_spec hrestore old ms]
    congr 2
    funext x
    by_cases hx : x = m
    · subst hx
      by_cases hms : x ∈ ms <;> simp [hms]
    · simp [hx]

/-- **The copies** are written when none of their writes raises. -/
theorem keepPrevious_spec (hbackup : ∀ m, faults.backup m = false) (old : Managed → Option Text) :
    ∀ (ms : List Managed) (d : Directory δ), keepPrevious faults old ms d =
      (false, { d with previous := fun m => if m ∈ ms ∧ (old m).isSome then (old m).map encode else d.previous m })
  | [], d => by simp [keepPrevious]
  | m :: ms, d => by
    unfold keepPrevious
    cases hm : old m with
    | none =>
      dsimp only
      rw [keepPrevious_spec hbackup old ms]
      congr 2
      funext x
      by_cases hx : x = m
      · subst hx
        simp [hm]
      · simp [hx]
    | some text =>
      dsimp only
      rw [if_neg (by simp [hbackup]), keepPrevious_spec hbackup old ms]
      congr 2
      funext x
      by_cases hx : x = m
      · subst hx
        by_cases hms : x ∈ ms <;> simp [hms, hm]
      · simp [hx]

end Loops

/-! ## What the loops leave alone -/

section Frames
variable {δ : Type} {faults : Faults} {old : Managed → Option Text}

@[simp] theorem rollback_status : ∀ (ms : List Managed) (d : Directory δ),
    (rollback faults old ms d).2.status = d.status
  | [], _ => rfl
  | m :: ms, d => by
    unfold rollback
    split
    · exact rollback_status ms d
    · exact rollback_status ms _

@[simp] theorem keepPrevious_status : ∀ (ms : List Managed) (d : Directory δ),
    (keepPrevious faults old ms d).2.status = d.status
  | [], _ => rfl
  | m :: ms, d => by
    unfold keepPrevious
    split
    · exact keepPrevious_status ms d
    · split
      · rfl
      · exact keepPrevious_status ms _

/-- A copy that is not written is one of a file that was there. -/
theorem keepPrevious_raises : ∀ (ms : List Managed) (d : Directory δ), (keepPrevious faults old ms d).1 = true →
    ∃ m, (old m).isSome ∧ faults.backup m = true
  | [], _, h => by cases h
  | m :: ms, d, h => by
    unfold keepPrevious at h
    split at h
    · exact keepPrevious_raises ms d h
    · next text hm =>
      split at h
      · next hb => exact ⟨m, by rw [hm]; rfl, hb⟩
      · exact keepPrevious_raises ms _ h

end Frames

/-! ## One transaction -/

/-- A write, the test or the reload of the transaction raises. -/
def Faults.fails (faults : Faults) : Bool := publishOrder.any faults.publish || faults.test || faults.reload

/-- Nothing else raises: no write of the rollback, of a copy or of the status file. -/
structure Faults.Recoverable (faults : Faults) : Prop where
  restore : ∀ m, faults.restore m = false
  backup : ∀ m, faults.backup m = false
  status : faults.status = false

theorem takeWhile_of_not_fails {faults : Faults} (hfails : faults.fails = false) :
    publishOrder.takeWhile (fun m => !faults.publish m) = publishOrder := by
  unfold Faults.fails at hfails
  rw [Bool.or_eq_false_iff, Bool.or_eq_false_iff, List.any_eq_false] at hfails
  rw [List.takeWhile_eq_self_iff]
  intro m hm
  simpa using hfails.1.1 m hm

section Transaction
variable {δ : Type} [DecidableEq δ] (digest : List Bytes → δ) (faults : Faults) (force : Bool) (inputs again : Option δ)
  (candidate : Managed → Str) (d : Directory δ)

/-- The files whose contents the run replaces, or takes for the candidate. -/
def replaced : List Managed :=
  if alreadyPublished force candidate d then outputs else publishOrder.takeWhile fun m => !faults.publish m

/-- **A transaction**: when it fails everything is as it was, and when nothing fails the candidate is in place and the
copies hold what was there; the status says which.  With nothing to publish the copies stay. -/
def Transaction : Prop :=
  let run := applyRendered digest faults force inputs again candidate d
  let rendered := renderedDigest digest (outputs.map candidate)
  if alreadyPublished force candidate d then
    run.exit = .unchanged ∧ (∀ m, run.dir.managed m = some (fileOf (candidate m))) ∧ run.dir.previous = d.previous ∧
      ∃ stable, run.dir.status = some (.applied rendered stable)
  else if faults.fails then
    (∃ message, run.exit = .raised (.configError message)) ∧ run.dir.managed = d.managed ∧
      run.dir.previous = d.previous ∧ ∃ rollbackFailed, run.dir.status = some (.failed rendered rollbackFailed)
  else
    run.exit = .applied ∧ (∀ m, run.dir.managed m = some (fileOf (candidate m))) ∧
      (∀ m content, d.managed m = some content → run.dir.previous m = some content) ∧
      ∃ stable, run.dir.status = some (.applied rendered stable)

/-- A file that is read and written back. -/
theorem rewritten_eq_iff (content : Option Bytes) :
    (content.map read).map encode = content ↔ ∀ bs, content = some bs → 13 ∉ bs := by
  cases content with
  | none => simp
  | some bs => simp [encode_read_eq_iff]

variable {digest faults force inputs again candidate d}

/-- **Nothing to publish**: the status is written and nothing else. -/
theorem applyRendered_of_published (hpub : alreadyPublished force candidate d = true) (hstatus : faults.status = false) :
    applyRendered digest faults force inputs again candidate d =
      ⟨.unchanged, { d with status := some (.applied (renderedDigest digest (outputs.map candidate))
        (if inputs = again then inputs else none)) }, false⟩ := by
  unfold applyRendered
  dsimp only
  rw [if_pos hpub, if_neg (by simp [hstatus])]

variable (digest) (inputs again) in
/-- **A failure** leaves the copies, and of each file that was published what reading and writing it back leaves. -/
theorem applyRendered_of_fails (hpub : alreadyPublished force candidate d = false) (hfails : faults.fails = true)
    (h : faults.Recoverable) : ∃ errors message, applyRendered digest faults force inputs again candidate d =
      ⟨.raised (.configError message),
        { d with
          managed := fun m => if m ∈ publishOrder.takeWhile (fun m => !faults.publish m) then (d.texts m).map encode
            else d.managed m
          status := some (.failed (renderedDigest digest (outputs.map candidate)) errors) },
        !(publishOrder.takeWhile fun m => !faults.publish m).isEmpty⟩ := by
  unfold applyRendered
  dsimp only
  rw [if_neg (by simp [hpub]), publish_spec]
  dsimp only
  rw [if_pos (by simpa [Faults.fails] using hfails), rollback_spec h.restore]
  simp only [h.status, Bool.false_eq_true, if_false]
  have hmanaged : (fun m => if m ∈ (publishOrder.takeWhile fun m => !faults.publish m).reverse then (d.texts m).map encode
      else if m ∈ publishOrder.takeWhile fun m => !faults.publish m then some (fileOf (candidate m)) else d.managed m) =
      fun m => if m ∈ publishOrder.takeWhile fun m => !faults.publish m then (d.texts m).map encode else d.managed m := by
    funext m
    by_cases hm : m ∈ publishOrder.takeWhile fun m => !faults.publish m
    · rw [if_pos (List.mem_reverse.2 hm), if_pos hm]
    · rw [if_neg (mt List.mem_reverse.1 hm), if_neg hm, if_neg hm]
  rw [hmanaged]
  exact ⟨_, _, rfl⟩

/-- **A success** puts the candidate in place and the texts that were there in the copies. -/
theorem applyRendered_of_not_fails (hpub : alreadyPublished force candidate d = false) (hfails : faults.fails = false)
    (h : faults.Recoverable) : applyRendered digest faults force inputs again candidate d =
      ⟨.applied,
        ⟨fun m => some (fileOf (candidate m)),
          fun m => if (d.texts m).isSome then (d.texts m).map encode else d.previous m,
          some (.applied (renderedDigest digest (outputs.map candidate)) (if inputs = again then inputs else none))⟩,
        true⟩ := by
  unfold applyRendered
  dsimp only
  rw [if_neg (by simp [hpub]), publish_spec]
  dsimp only
  rw [if_neg (by simpa [Faults.fails] using hfails), keepPrevious_spec h.backup, takeWhile_of_not_fails hfails]
  dsimp only
  rw [if_neg (by simp [h.status])]
  simp only [mem_publishOrder, mem_outputs, if_true, true_and]

end Transaction

/-! ## Every way a run can end -/

/-- A file is written, and the status file is not: its own write raises, or the write of a copy before it. -/
def Faults.LosesStatus {δ : Type} (faults : Faults) (d : Directory δ) : Prop :=
  faults.publish .purge = false ∧
    (faults.status = true ∨ faults.fails = false ∧ ∃ m, (d.managed m).isSome ∧ faults.backup m = true)

section Endings
variable {δ : Type} [DecidableEq δ] (digest : List Bytes → δ) (faults : Faults) (force : Bool) (inputs again : Option δ)
  (candidate : Managed → Str) (d : Directory δ)

theorem applyRendered_exit_ne_matched : (applyRendered digest faults force inputs again candidate d).exit ≠ .matched := by
  unfold applyRendered
  dsimp only
  split_ifs <;> exact fun h => Exit.noConfusion h

theorem takeWhile_isEmpty_iff : (publishOrder.takeWhile fun m => !faults.publish m).isEmpty = faults.publish .purge := by
  unfold publishOrder
  cases h : faults.publish .purge <;> simp [h]

/-- **How a run ends**: it has nothing to publish; or it succeeds; or it says that it failed; or the status file stays as it
was, and then no file was written or the status was lost. -/
theorem applyRendered_cases :
    let run := applyRendered digest faults force inputs again candidate d
    let rendered := renderedDigest digest (outputs.map candidate)
    let stable := if inputs = again then inputs else none
    (alreadyPublished force candidate d = true ∧ run.wrote = false ∧
      (run.dir.status = d.status ∨ run.dir.status = some (.applied rendered stable))) ∨
    (run.exit = .applied ∧ run.wrote = true ∧ run.dir.status = some (.applied rendered stable)) ∨
    (∃ rollbackFailed, run.dir.status = some (.failed rendered rollbackFailed)) ∨
    (alreadyPublished force candidate d = false ∧ run.dir.status = d.status ∧
      (run.wrote = true → faults.LosesStatus d)) := by
  intro run rendered stable
  by_cases hpub : alreadyPublished force candidate d = true
  · refine Or.inl ⟨hpub, ?_⟩
    simp only [run, applyRendered, if_pos hpub]
    split
    · exact ⟨rfl, Or.inl rfl⟩
    · exact ⟨rfl, Or.inr rfl⟩
  refine Or.inr ?_
  by_cases hfails : faults.fails = true
  · refine Or.inr ?_
    have hraised : (publishOrder.any faults.publish || faults.test || faults.reload) = true := hfails
    simp only [run, applyRendered, if_neg hpub, publish_spec, if_pos hraised, takeWhile_isEmpty_iff]
    cases hstatus : faults.status with
    | false => exact Or.inl ⟨_, rfl⟩
    | true =>
      refine Or.inr ⟨by simpa using hpub, by simp, fun hwrote => ⟨by simpa using hwrote, Or.inl hstatus⟩⟩
  · have hraised : ¬ (publishOrder.any faults.publish || faults.test || faults.reload) = true := hfails
    simp only [run, applyRendered, if_neg hpub, publish_spec, if_neg hraised]
    split
    · next hlost =>
      have hpurge : faults.publish .purge = false := by
        simp only [Faults.fails, publishOrder, List.any_cons, Bool.or_eq_true, not_or, Bool.not_eq_true] at hfails
        exact hfails.1.1.1
      refine Or.inr (Or.inr ⟨by simpa using hpub, keepPrevious_status _ _, fun _ => ⟨hpurge, ?_⟩⟩)
      rcases Bool.or_eq_true_iff.1 hlost with hlost | hstatus
      · obtain ⟨m, hm, hbackup⟩ := keepPrevious_raises _ _ hlost
        exact Or.inr ⟨by simpa using hfails, m, by simpa [Directory.texts] using hm, hbackup⟩
      · exact Or.inl hstatus
    · exact Or.inl ⟨rfl, rfl, rfl⟩

end Endings

/-- A directory whose `active.conf` ends its line as DOS does, and nothing else. -/
def dosDirectory : Directory (List Bytes) where
  managed m := if m = .active then some [97, 13, 10] else none
  previous _ := none
  status := none

end RepoWatch
