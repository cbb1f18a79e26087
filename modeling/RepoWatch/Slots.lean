import Mathlib.Algebra.Order.Round
import Mathlib.Data.Rat.Floor
import RepoWatch.Lib.Event
import RepoWatch.Lib.Run
import RepoWatch.Text
/-!
# Slots — the admission of checks and warms

Checks and warms share one pool and one event.  An operation that finds no capacity clears the event and waits for it;
every release and every change of the size sets it.  `SlotSystem.step` is one uninterrupted piece of work on the event
loop; `SlotSystem.Inv.step` says that after each piece nobody waits who could be admitted.
-/
namespace RepoWatch

open Lib

inductive SlotKind where
  | check
  | warm
  deriving DecidableEq

/-- One entry into `check()` or `warm()`. -/
structure SlotOp where
  id : Nat
  kind : SlotKind
  deriving DecidableEq

structure RepoSlots where
  size : Int
  active : SlotKind → Int
  changed : Event SlotOp

namespace RepoSlots

def resize (pool : RepoSlots) (size : Int) : Except Str RepoSlots :=
  if size < 1 then .error "size must be at least 1".toList
  else if size ≠ pool.size then .ok { pool with size := size, changed := pool.changed.set }
  else .ok pool

/-- `RepoSlots.__init__`. -/
def new (size : Int) : Except Str RepoSlots := resize ⟨0, fun _ => 0, .new⟩ size

def limit (size : Int) : SlotKind → Int
  | .check => size
  | .warm => max 1 (size - (size + 3) / 4)

/-- `RepoSlots._available`. -/
def available (pool : RepoSlots) (kind : SlotKind) : Bool :=
  if pool.active .check + pool.active .warm ≥ max 2 pool.size then false
  else decide (pool.active kind < limit pool.size kind)

def add (pool : RepoSlots) (kind : SlotKind) (n : Int) : RepoSlots :=
  { pool with active := fun k => if k = kind then pool.active k + n else pool.active k }

end RepoSlots

/-- The pool, and the operations between their admission and their release. -/
structure SlotSystem where
  pool : RepoSlots
  holders : List SlotOp

inductive SlotEvent where
  | acquire (op : SlotOp)
  | resume (op : SlotOp)
  | cancel (op : SlotOp)
  | unwind (op : SlotOp)
  | release (op : SlotOp)
  | resize (size : Int)

namespace SlotSystem

/-- One turn of the loop in `_hold`: take a slot, or clear the event and wait. -/
def attempt (st : SlotSystem) (op : SlotOp) : SlotSystem :=
  if st.pool.available op.kind then ⟨st.pool.add op.kind 1, st.holders ++ [op]⟩
  else match st.pool.changed.clear.wait op with
    | some changed => { st with pool := { st.pool with changed := changed } }
    | none => st

/-- One uninterrupted piece of work.  An operation is new, waits, or holds a slot; a cancelled holder keeps its slot until
it releases it, and a cancelled waiter leaves with the cancellation error when it runs. -/
def step (st : SlotSystem) : SlotEvent → Option SlotSystem
  | .acquire op =>
    if op ∉ st.holders ∧ op ∉ st.pool.changed.waiters.map Prod.fst then some (st.attempt op) else none
  | .resume op =>
    if (op, .resolved) ∈ st.pool.changed.waiters then
      some (attempt { st with pool := { st.pool with changed := st.pool.changed.remove op } } op)
    else none
  | .cancel op => some { st with pool := { st.pool with changed := st.pool.changed.cancel op } }
  | .unwind op =>
    if (op, .cancelled) ∈ st.pool.changed.waiters then
      some { st with pool := { st.pool with changed := st.pool.changed.remove op } }
    else none
  | .release op =>
    if op ∈ st.holders then
      let pool := st.pool.add op.kind (-1)
      some ⟨{ pool with changed := pool.changed.set }, st.holders.erase op⟩
    else none
  | .resize size =>
    match st.pool.resize size with
    | .ok pool => some { st with pool := pool }
    | .error _ => some st

abbrev Reached (pool : RepoSlots) (events : List SlotEvent) (st : SlotSystem) : Prop :=
  Run (fun st e st' => step st e = some st') ⟨pool, []⟩ events st

/-- How many operations of a kind hold a slot. -/
def holding (st : SlotSystem) (kind : SlotKind) : Nat := st.holders.countP fun op => op.kind = kind

/-- The operation whose capacity the event checks. -/
def attempts : SlotEvent → Option SlotOp
  | .acquire op => some op
  | .resume op => some op
  | _ => none

/-- The size that an event sets. -/
def resized : SlotEvent → Option Int
  | .resize n => if n < 1 then none else some n
  | _ => none

/-- The sizes that were set, from the first on. -/
def sizes (size : Int) (events : List SlotEvent) : List Int := size :: events.filterMap resized

def NeverLowered (size : Int) (events : List SlotEvent) : Prop := (sizes size events).Pairwise (· ≤ ·)

instance (size : Int) (events : List SlotEvent) : Decidable (NeverLowered size events) :=
  inferInstanceAs (Decidable (List.Pairwise _ _))

end SlotSystem

/-! ## Capacity -/

namespace RepoSlots
variable {pool : RepoSlots} {k : SlotKind}

theorem available_iff : pool.available k = true ↔
    pool.active .check + pool.active .warm < max 2 pool.size ∧ pool.active k < limit pool.size k := by
  unfold available
  split
  · rename_i h
    simp only [Bool.false_eq_true, false_iff, not_and]
    omega
  · rename_i h
    simp only [decide_eq_true_eq]
    omega

theorem available_of_add {k' : SlotKind} (h : (pool.add k' 1).available k = true) : pool.available k = true := by
  rw [available_iff] at h ⊢
  unfold add at h
  obtain ⟨htotal, hkind⟩ := h
  cases k <;> cases k' <;> simp only [reduceCtorEq, if_true, if_false] at htotal hkind ⊢ <;> omega

@[simp] theorem limit_check (size : Int) : limit size .check = size := rfl
theorem limit_warm (size : Int) : limit size .warm = max 1 (size - (size + 3) / 4) := rfl

theorem limit_mono {size size' : Int} (h : size ≤ size') : limit size .warm ≤ limit size' .warm := by
  rw [limit_warm, limit_warm]
  omega

/-- Warms alone leave a slot for a check. -/
theorem available_check (hsize : 1 ≤ pool.size) (hcheck : pool.active .check = 0)
    (hwarm : pool.active .warm ≤ limit pool.size .warm) : pool.available .check = true := by
  rw [available_iff, hcheck, limit_check]
  rw [limit_warm] at hwarm
  omega

/-- The quarter that is kept for checks, rounded up. -/
theorem ceil_quarter (size : Int) : (size + 3) / 4 = ⌈(size : ℚ) / 4⌉ := by
  symm
  rw [Int.ceil_eq_iff]
  have hlow : 4 * ((size + 3) / 4 - 1) < size := by omega
  have hhigh : size ≤ 4 * ((size + 3) / 4) := by omega
  have hlow' : (4 : ℚ) * (((size + 3) / 4 : ℤ) - 1) < size := by exact_mod_cast hlow
  have hhigh' : (size : ℚ) ≤ 4 * ((size + 3) / 4 : ℤ) := by exact_mod_cast hhigh
  constructor <;> linarith

theorem resize_eq_ok {size : Int} {pool' : RepoSlots} (h : pool.resize size = .ok pool') : 1 ≤ size ∧
    pool'.size = size ∧ pool'.active = pool.active ∧
      (pool'.changed = pool.changed.set ∨ pool' = pool) := by
  unfold resize at h
  split at h
  · cases h
  · rename_i hpos
    split at h
    · cases h
      exact ⟨by omega, rfl, rfl, Or.inl rfl⟩
    · rename_i hsame
      cases h
      exact ⟨by omega, (not_not.1 hsame).symm, rfl, Or.inr rfl⟩

end RepoSlots

/-! ## What one piece of work does -/

namespace SlotSystem
variable {st st' : SlotSystem} {e : SlotEvent} {op : SlotOp} {k : SlotKind}

/-- **A turn of the loop** takes a slot, or waits without one. -/
theorem attempt_cases (st : SlotSystem) (op : SlotOp) :
    (st.pool.available op.kind = true ∧ st.attempt op = ⟨st.pool.add op.kind 1, st.holders ++ [op]⟩) ∨
    (st.pool.available op.kind = false ∧ st.attempt op =
      ⟨{ st.pool with changed := ⟨false, st.pool.changed.waiters ++ [(op, .pending)]⟩ }, st.holders⟩) := by
  unfold attempt
  rw [Event.wait_clear]
  cases h : st.pool.available op.kind with
  | true => exact Or.inl ⟨rfl, if_pos rfl⟩
  | false => exact Or.inr ⟨rfl, if_neg Bool.false_ne_true⟩

/-- The same state with another list of waiters. -/
def withChanged (st : SlotSystem) (changed : Event SlotOp) : SlotSystem :=
  { st with pool := { st.pool with changed := changed } }

/-- **What one piece of work can be**: a turn of the loop, a change of the waiters, a release, or a resize. -/
theorem step_cases (h : step st e = some st') :
    (∃ op changed, attempts e = some op ∧ resized e = none ∧ st' = (st.withChanged changed).attempt op ∧
      (changed = st.pool.changed ∧ op ∉ st.holders ∧ op ∉ st.pool.changed.waiters.map Prod.fst ∨
        changed = st.pool.changed.remove op ∧ op ∈ st.pool.changed.waiters.map Prod.fst)) ∨
    (attempts e = none ∧ resized e = none ∧ ∃ op, st' = st.withChanged (st.pool.changed.cancel op) ∨
      st' = st.withChanged (st.pool.changed.remove op)) ∨
    (attempts e = none ∧ resized e = none ∧ ∃ op ∈ st.holders,
      st' = (SlotSystem.mk (st.pool.add op.kind (-1)) (st.holders.erase op)).withChanged st.pool.changed.set) ∨
    (attempts e = none ∧ ∃ size pool, e = .resize size ∧ st.pool.resize size = .ok pool ∧
      st' = { st with pool := pool }) ∨
    (attempts e = none ∧ resized e = none ∧ st' = st) := by
  cases e with
  | acquire op =>
    obtain ⟨hnew, h⟩ := Option.ite_none_right_eq_some.1 h
    cases h
    exact Or.inl ⟨op, st.pool.changed, rfl, rfl, rfl, Or.inl ⟨rfl, hnew⟩⟩
  | resume op =>
    obtain ⟨hwaits, h⟩ := Option.ite_none_right_eq_some.1 h
    cases h
    exact Or.inl ⟨op, _, rfl, rfl, rfl, Or.inr ⟨rfl, List.mem_map_of_mem hwaits⟩⟩
  | cancel op =>
    cases h
    exact Or.inr (Or.inl ⟨rfl, rfl, op, Or.inl rfl⟩)
  | unwind op =>
    obtain ⟨-, h⟩ := Option.ite_none_right_eq_some.1 h
    cases h
    exact Or.inr (Or.inl ⟨rfl, rfl, op, Or.inr rfl⟩)
  | release op =>
    obtain ⟨hholds, h⟩ := Option.ite_none_right_eq_some.1 h
    cases h
    exact Or.inr (Or.inr (Or.inl ⟨rfl, rfl, op, hholds, rfl⟩))
  | resize size =>
    unfold step at h
    dsimp only at h
    split at h
    · rename_i pool hpool
      cases h
      exact Or.inr (Or.inr (Or.inr (Or.inl ⟨rfl, size, pool, rfl, hpool, rfl⟩)))
    · rename_i error herror
      cases h
      refine Or.inr (Or.inr (Or.inr (Or.inr ⟨rfl, ?_, rfl⟩)))
      unfold RepoSlots.resize at herror
      split at herror
      · rename_i hsmall
        exact if_pos hsmall
      · split at herror <;> cases herror

theorem holding_append (st : SlotSystem) (pool : RepoSlots) (op : SlotOp) (k : SlotKind) :
    (SlotSystem.mk pool (st.holders ++ [op])).holding k = st.holding k + if op.kind = k then 1 else 0 := by
  unfold holding
  rw [List.countP_append]
  by_cases hk : op.kind = k <;> simp [hk]

theorem holding_erase (hop : op ∈ st.holders) (pool : RepoSlots) (k : SlotKind) :
    st.holding k = (SlotSystem.mk pool (st.holders.erase op)).holding k + if op.kind = k then 1 else 0 := by
  unfold holding
  rw [(List.perm_cons_erase hop).countP_eq, List.countP_cons]
  simp

/-- The two kinds are all there is. -/
theorem length_holders (st : SlotSystem) : st.holders.length = st.holding .check + st.holding .warm := by
  unfold holding
  rw [List.length_eq_countP_add_countP (fun op : SlotOp => decide (op.kind = .check))]
  congr 2
  funext op
  cases op.kind <;> rfl

/-! ## The invariant -/

/-- The counts are those of the holders, no operation is there twice, and nobody waits who could be admitted. -/
structure Inv (st : SlotSystem) : Prop where
  counts : ∀ k, st.pool.active k = st.holding k
  size_pos : 1 ≤ st.pool.size
  distinct : (st.holders ++ st.pool.changed.waiters.map Prod.fst).Nodup
  waking : st.pool.changed.Waking
  refused : ∀ op, st.pool.changed.IsPending op → st.pool.available op.kind = false

theorem Inv.attempt (h : st.Inv) (hheld : op ∉ st.holders) (hwaits : op ∉ st.pool.changed.waiters.map Prod.fst) :
    (st.attempt op).Inv := by
  obtain ⟨hnodupH, hnodupW, hdisjoint⟩ := List.nodup_append.1 h.distinct
  rcases attempt_cases st op with ⟨hav, heq⟩ | ⟨hav, heq⟩
  · rw [heq]
    refine ⟨fun k => ?_, h.size_pos, ?_, h.waking, fun w hw => ?_⟩
    · have hk := h.counts k
      rw [holding_append]
      unfold RepoSlots.add
      dsimp only
      by_cases hkind : k = op.kind
      · subst hkind
        simp [hk]
      · simp [hk, hkind, Ne.symm hkind]
    · refine List.nodup_append.2 ⟨List.nodup_append.2 ⟨hnodupH, by simp, fun a ha b hb => ?_⟩, hnodupW, fun a ha b hb => ?_⟩
      · rw [List.mem_singleton.1 hb]
        exact fun hab => hheld (hab ▸ ha)
      · rcases List.mem_append.1 ha with ha | ha
        · exact hdisjoint a ha b hb
        · rw [List.mem_singleton.1 ha]
          exact fun hab => hwaits (hab ▸ hb)
    · by_contra hyes
      exact absurd (RepoSlots.available_of_add (Bool.eq_true_of_not_eq_false hyes))
        (by rw [h.refused w hw]; exact Bool.false_ne_true)
  · rw [heq]
    refine ⟨h.counts, h.size_pos, ?_, nofun, fun w hw => ?_⟩
    · dsimp only
      rw [List.map_append, ← List.append_assoc]
      refine List.nodup_append.2 ⟨h.distinct, by simp, fun a ha b hb => ?_⟩
      rw [List.map_singleton, List.mem_singleton] at hb
      subst hb
      rintro rfl
      rcases List.mem_append.1 ha with ha | ha
      · exact hheld ha
      · exact hwaits ha
    · rcases List.mem_append.1 hw with hw | hw
      · exact h.refused w hw
      · rw [List.mem_singleton, Prod.mk.injEq] at hw
        rw [hw.1]
        exact hav

/-- Fewer waiters keep the invariant, when no one becomes pending. -/
theorem Inv.withChanged (h : st.Inv) {changed : Event SlotOp}
    (hsub : (changed.waiters.map Prod.fst).Sublist (st.pool.changed.waiters.map Prod.fst)) (hwaking : changed.Waking)
    (hpending : ∀ op, changed.IsPending op → st.pool.changed.IsPending op) : (st.withChanged changed).Inv :=
  ⟨h.counts, h.size_pos, (List.Sublist.append (List.Sublist.refl _) hsub).nodup h.distinct, hwaking, fun op hop =>
    h.refused op (hpending op hop)⟩

theorem Inv.remove (h : st.Inv) (op : SlotOp) : (st.withChanged (st.pool.changed.remove op)).Inv :=
  h.withChanged (List.filter_sublist.map Prod.fst) (Event.waking_remove h.waking) fun _ =>
    Event.isPending_of_remove

theorem Inv.step (h : st.Inv) (hs : step st e = some st') : st'.Inv := by
  rcases step_cases hs with ⟨op, changed, -, -, rfl, hwas⟩ | ⟨-, -, op, rfl | rfl⟩ | ⟨-, -, op, hop, rfl⟩ |
    ⟨-, size, pool, -, hpool, rfl⟩ | ⟨-, -, rfl⟩
  · rcases hwas with ⟨rfl, hheld, hwaits⟩ | ⟨rfl, hwaits⟩
    · exact h.attempt hheld hwaits
    · refine (h.remove op).attempt (fun hheld => ?_) fun hw => (Event.mem_map_fst_remove.1 hw).2 rfl
      exact (List.nodup_append.1 h.distinct).2.2 op hheld op hwaits rfl
  · exact h.withChanged (by rw [Event.map_fst_cancel]) (Event.waking_cancel h.waking) fun _ =>
      Event.isPending_of_cancel
  · exact h.remove op
  · refine ⟨fun k => ?_, h.size_pos, ?_, Event.waking_set h.waking, fun w hw =>
      absurd hw (Event.not_isPending_set h.waking)⟩
    · have hk := h.counts k
      rw [holding_erase hop (st.pool.add op.kind (-1)) k] at hk
      change (if k = op.kind then st.pool.active k + -1 else st.pool.active k) =
        ((SlotSystem.mk (st.pool.add op.kind (-1)) (st.holders.erase op)).holding k : Int)
      by_cases hkind : k = op.kind
      · subst hkind
        rw [if_pos rfl] at hk ⊢
        omega
      · rw [if_neg (Ne.symm hkind)] at hk
        rw [if_neg hkind]
        omega
    · change (st.holders.erase op ++ st.pool.changed.set.waiters.map Prod.fst).Nodup
      rw [Event.map_fst_set]
      exact (List.Sublist.append List.erase_sublist (List.Sublist.refl _)).nodup h.distinct
  · obtain ⟨hpos, hsize, hactive, hset | rfl⟩ := RepoSlots.resize_eq_ok hpool
    · refine ⟨fun k => by rw [hactive]; exact h.counts k, hsize ▸ hpos, ?_, ?_, fun w hw => ?_⟩
      · dsimp only
        rw [hset, Event.map_fst_set]
        exact h.distinct
      · dsimp only
        rw [hset]
        exact Event.waking_set h.waking
      · dsimp only at hw
        rw [hset] at hw
        exact absurd hw (Event.not_isPending_set h.waking)
    · exact h
  · exact h

theorem inv_new {size : Int} {pool : RepoSlots} (h : RepoSlots.new size = .ok pool) : (SlotSystem.mk pool []).Inv := by
  have hpool : pool.active = (fun _ => 0) ∧ pool.changed.waiters = [] := by
    obtain ⟨-, -, hactive, hset | rfl⟩ := RepoSlots.resize_eq_ok h
    · exact ⟨hactive, by rw [hset]; rfl⟩
    · exact ⟨rfl, rfl⟩
  obtain ⟨hpos, hsize, -, -⟩ := RepoSlots.resize_eq_ok h
  refine ⟨fun k => by rw [hpool.1]; rfl, hsize ▸ hpos, by rw [hpool.2]; exact List.nodup_nil, fun _ w hw => ?_,
    fun w hw => ?_⟩
  · rw [Event.IsPending, hpool.2] at hw
    cases hw
  · dsimp only at hw
    rw [Event.IsPending, hpool.2] at hw
    cases hw

theorem inv_reached {size : Int} {pool : RepoSlots} {events : List SlotEvent} (hnew : RepoSlots.new size = .ok pool)
    (h : Reached pool events st) : st.Inv :=
  h.invariant Inv (fun _ _ _ hi hs => hi.step hs) (inv_new hnew)

/-! ## Every run -/

theorem size_step (hs : step st e = some st') : st'.pool.size = (resized e).getD st.pool.size := by
  rcases step_cases hs with ⟨op, changed, -, hno, rfl, -⟩ | ⟨-, hno, op, rfl | rfl⟩ | ⟨-, hno, op, -, rfl⟩ |
    ⟨-, size, pool, rfl, hpool, rfl⟩ | ⟨-, hno, rfl⟩
  · rw [hno]
    rcases attempt_cases (st.withChanged changed) op with ⟨-, heq⟩ | ⟨-, heq⟩ <;> rw [heq] <;> rfl
  · rw [hno]
    rfl
  · rw [hno]
    rfl
  · rw [hno]
    rfl
  · obtain ⟨hpos, hsize, -, -⟩ := RepoSlots.resize_eq_ok hpool
    rw [resized, if_neg (by omega)]
    exact hsize
  · rw [hno]
    rfl

/-- The holders of a kind grow by an admission alone, and then there was capacity. -/
theorem holding_step (hs : step st e = some st') (k : SlotKind) : st'.holding k ≤ st.holding k ∨
    (resized e = none ∧ st.pool.available k = true ∧ st'.holding k = st.holding k + 1) := by
  rcases step_cases hs with ⟨op, changed, -, hno, rfl, -⟩ | ⟨-, -, op, rfl | rfl⟩ | ⟨-, -, op, hop, rfl⟩ |
    ⟨-, size, pool, -, -, rfl⟩ | ⟨-, -, rfl⟩
  · rcases attempt_cases (st.withChanged changed) op with ⟨hav, heq⟩ | ⟨-, heq⟩
    · rw [heq, holding_append]
      by_cases hk : op.kind = k
      · rw [if_pos hk]
        exact Or.inr ⟨hno, hk ▸ hav, rfl⟩
      · rw [if_neg hk]
        exact Or.inl le_rfl
    · rw [heq]
      exact Or.inl le_rfl
  · exact Or.inl le_rfl
  · exact Or.inl le_rfl
  · exact Or.inl (holding_erase hop (st.pool.add op.kind (-1)) k ▸ Nat.le_add_right _ _)
  · exact Or.inl le_rfl
  · exact Or.inl le_rfl

theorem admitted (hs : step st e = some st') (hentered : st'.holders = st.holders ++ [op]) :
    st.pool.available op.kind = true ∧ st'.pool.size = st.pool.size := by
  have hkept : st'.holders.length ≤ st.holders.length → False := fun h => by
    rw [hentered, List.length_append, List.length_singleton] at h
    omega
  rcases step_cases hs with ⟨op', changed, -, -, rfl, -⟩ | ⟨-, -, op', rfl | rfl⟩ | ⟨-, -, op', -, rfl⟩ |
    ⟨-, size, pool, -, -, rfl⟩ | ⟨-, -, rfl⟩
  · rcases attempt_cases (st.withChanged changed) op' with ⟨hav, heq⟩ | ⟨-, heq⟩
    · rw [heq] at hentered ⊢
      have hop : [op'] = [op] := List.append_cancel_left hentered
      cases hop
      exact ⟨hav, rfl⟩
    · exact (hkept (by rw [heq]; exact le_rfl)).elim
  · exact (hkept le_rfl).elim
  · exact (hkept le_rfl).elim
  · exact (hkept List.erase_sublist.length_le).elim
  · exact (hkept le_rfl).elim
  · exact (hkept le_rfl).elim

/-- A check that tries and is not admitted finds no capacity. -/
theorem refused_of_attempt (hs : step st e = some st') (hop : attempts e = some op) (hout : op ∉ st'.holders) :
    st.pool.available op.kind = false ∧ st'.holders = st.holders := by
  rcases step_cases hs with ⟨op', changed, hatt, -, rfl, -⟩ | ⟨hno, -⟩ | ⟨hno, -⟩ | ⟨hno, -⟩ | ⟨hno, -⟩
  · rw [hop] at hatt
    cases hatt
    rcases attempt_cases (st.withChanged changed) op with ⟨-, heq⟩ | ⟨hav, heq⟩
    · rw [heq] at hout
      exact absurd (List.mem_append_right _ List.mem_cons_self) hout
    · exact ⟨hav, by rw [heq]; rfl⟩
  all_goals
    rw [hop] at hno
    cases hno

theorem sizes_append (size : Int) (events : List SlotEvent) (e : SlotEvent) :
    sizes size (events ++ [e]) = sizes size events ++ (resized e).toList := by
  unfold sizes
  rw [List.filterMap_append, List.cons_append]
  cases h : resized e <;> simp [h]

/-- **While the size is never lowered**, the warms are within the limit of the size in force. -/
theorem warm_le_of_neverLowered {size : Int} {pool : RepoSlots} {events : List SlotEvent}
    (hnew : RepoSlots.new size = .ok pool) (h : Reached pool events st) :
    st.pool.size ∈ (sizes size events).getLast? ∧
      (NeverLowered size events → (st.holding .warm : Int) ≤ RepoSlots.limit st.pool.size .warm) := by
  refine h.history (fun events st => st.pool.size ∈ (sizes size events).getLast? ∧
    (NeverLowered size events → (st.holding .warm : Int) ≤ RepoSlots.limit st.pool.size .warm)) ⟨?_, fun _ => ?_⟩ ?_
  · rw [(RepoSlots.resize_eq_ok hnew).2.1]
    rfl
  · change (0 : Int) ≤ max 1 _
    exact le_trans Int.one_nonneg (le_max_left _ _)
  · rintro events st₁ e st₂ hrun ⟨hlast, hwarm⟩ hs
    have hsize := size_step hs
    have hi := inv_reached hnew hrun
    unfold NeverLowered at hwarm ⊢
    rw [sizes_append]
    cases hr : resized e with
    | none =>
      rw [hr] at hsize
      rw [Option.toList_none, List.append_nil, hsize]
      refine ⟨hlast, fun hnever => ?_⟩
      rcases holding_step hs .warm with hle | ⟨-, hav, hplus⟩
      · exact le_trans (by exact_mod_cast hle) (hwarm hnever)
      · have hlt := (RepoSlots.available_iff.1 hav).2
        rw [hi.counts] at hlt
        rw [Option.getD_none]
        omega
    | some size' =>
      rw [hr, Option.getD_some] at hsize
      rw [Option.toList_some, hsize]
      refine ⟨by simp, fun hnever => ?_⟩
      obtain ⟨hnever, -, hlast'⟩ := List.pairwise_append.1 hnever
      have hle : st₁.pool.size ≤ size' := hlast' _ (List.mem_of_getLast? hlast) size' List.mem_cons_self
      rcases holding_step hs .warm with hkept | ⟨hno, -⟩
      · exact le_trans (by exact_mod_cast hkept) ((hwarm hnever).trans (RepoSlots.limit_mono hle))
      · rw [hr] at hno
        cases hno

/-- All three bounds of the size in force. -/
structure Bounded (st : SlotSystem) : Prop where
  total : (st.holders.length : Int) ≤ max 2 st.pool.size
  checks : (st.holding .check : Int) ≤ st.pool.size
  warms : (st.holding .warm : Int) ≤ max 1 (st.pool.size - ⌈(st.pool.size : ℚ) / 4⌉)

/-- **Admission slots are bounded and never lost**, in every run: an admission keeps the total and the checks within the
size in force, and the warms too if it admits a warm or the size was never lowered; the counts are those of the holders;
when no waiter is runnable, none waits for what is admissible; and until the size is lowered, a check is refused only for
another check. -/
theorem slots_run {size : Int} {pool : RepoSlots} {events : List SlotEvent} (hnew : RepoSlots.new size = .ok pool)
    (h : Reached pool events st) :
    (∀ e op st', step st e = some st' → st'.holders = st.holders ++ [op] →
      (st'.holders.length : Int) ≤ max 2 st'.pool.size ∧ (st'.holding .check : Int) ≤ st'.pool.size ∧
      (op.kind = .warm ∨ NeverLowered size events →
        (st'.holding .warm : Int) ≤ max 1 (st'.pool.size - ⌈(st'.pool.size : ℚ) / 4⌉))) ∧
    (st.holders.Nodup ∧ ∀ k, st.pool.active k = st.holding k) ∧
    (∀ k, st.pool.available k = true → (∀ w ∈ st.pool.changed.waiters, w.2 = .pending) →
      ∀ w ∈ st.pool.changed.waiters, w.1.kind ≠ k) ∧
    (NeverLowered size events → ∀ e op st', step st e = some st' → attempts e = some op → op.kind = .check →
      op ∉ st'.holders → ∃ other ∈ st.holders, other.kind = .check ∧ other ≠ op) := by
  have hi := inv_reached hnew h
  have hwarm := (warm_le_of_neverLowered hnew h).2
  refine ⟨?_, ⟨(List.nodup_append.1 hi.distinct).1, hi.counts⟩, ?_, ?_⟩
  · intro e op st' hs hentered
    obtain ⟨hav, hsize⟩ := admitted hs hentered
    obtain ⟨htotal, hkind⟩ := RepoSlots.available_iff.1 hav
    have hholding : ∀ k, st'.holding k = st.holding k + if op.kind = k then 1 else 0 := fun k => by
      rw [← holding_append st st'.pool op k, ← hentered]
    have hlength := length_holders st'
    have hpos := hi.size_pos
    rw [hi.counts, hi.counts] at htotal
    rw [hi.counts] at hkind
    rw [hsize, ← RepoSlots.ceil_quarter]
    rw [RepoSlots.limit_warm] at hwarm
    cases hop : op.kind with
    | check =>
      simp only [hop, RepoSlots.limit_check] at hholding hkind
      have hc := hholding .check
      have hw := hholding .warm
      simp only [reduceCtorEq, if_true, if_false] at hc hw
      refine ⟨by omega, by omega, ?_⟩
      rintro (hno | hnever)
      · cases hno
      · have := hwarm hnever
        omega
    | warm =>
      simp only [hop, RepoSlots.limit_warm] at hholding hkind
      have hc := hholding .check
      have hw := hholding .warm
      simp only [reduceCtorEq, if_true, if_false] at hc hw
      refine ⟨by omega, by omega, fun _ => by omega⟩
  · intro k hav hpending w hw hk
    have hno := hi.refused w.1 (by rw [Event.IsPending, ← hpending w hw]; exact hw)
    rw [hk, hav] at hno
    cases hno
  · intro hnever e op st' hs hop hkind hout
    obtain ⟨hrefused, hsame⟩ := refused_of_attempt hs hop hout
    have hchecks : 0 < st.holding .check := by
      by_contra hnone
      have hzero : st.pool.active .check = 0 := by
        rw [hi.counts]
        omega
      have hfree := RepoSlots.available_check hi.size_pos hzero (by rw [hi.counts]; exact hwarm hnever)
      rw [hkind, hfree] at hrefused
      cases hrefused
    obtain ⟨other, hother, hcheck⟩ := List.countP_pos_iff.1 hchecks
    exact ⟨other, hother, by simpa using hcheck, fun heq => hout (hsame ▸ heq ▸ hother)⟩

/-- Seven warms hold a slot when the size drops from ten to eight. -/
def loweredEvents : List SlotEvent :=
  ((List.range 7).map fun i => .acquire ⟨i, .warm⟩) ++ [.resize 8]

/-- After the size was lowered, a check is admitted beside more warms than may be admitted. -/
theorem warms_above_limit : ¬ ∀ (size : Int) (pool : RepoSlots) (events : List SlotEvent) (st st' : SlotSystem)
    (e : SlotEvent) (op : SlotOp), RepoSlots.new size = .ok pool → Reached pool events st → step st e = some st' →
    st'.holders = st.holders ++ [op] → st'.Bounded := by
  intro h
  let pool : RepoSlots := ⟨10, fun _ => 0, ⟨true, []⟩⟩
  obtain ⟨st, hst⟩ := Option.isSome_iff_exists.1 (show (loweredEvents.foldlM step ⟨pool, []⟩).isSome from by decide)
  have hseen : (loweredEvents.foldlM step ⟨pool, []⟩).map (fun st => (st.holders, st.pool.size)) =
      some ((List.range 7).map (fun i => ⟨i, .warm⟩), 8) := by decide
  have hnext : (loweredEvents.foldlM step ⟨pool, []⟩).bind (fun st => (step st (.acquire ⟨7, .check⟩)).map
      fun st => (st.holders, st.pool.size)) = some ((List.range 7).map (fun i => ⟨i, .warm⟩) ++ [⟨7, .check⟩], 8) := by
    decide
  rw [hst, Option.map_some, Option.some.injEq, Prod.mk.injEq] at hseen
  rw [hst, Option.bind_some] at hnext
  obtain ⟨st', hs, hst'⟩ := Option.map_eq_some_iff.1 hnext
  obtain ⟨hholders, hsize⟩ := Prod.mk.inj hst'
  have hwarms := (h 10 pool loweredEvents st st' _ ⟨7, .check⟩ rfl (run_iff_foldlM.2 hst) hs
    (by rw [hholders, hseen.1])).warms
  rw [← RepoSlots.ceil_quarter, holding, hholders, hsize] at hwarms
  revert hwarms
  decide

/-- A check that waits for another one, in a pool of one slot. -/
theorem slots_run_single : ∃ other ∈ [(⟨0, .check⟩ : SlotOp)], other.kind = .check ∧ other ≠ ⟨1, .check⟩ := by
  let pool : RepoSlots := ⟨1, fun _ => 0, ⟨true, []⟩⟩
  have hrun : Reached pool [.acquire ⟨0, .check⟩] (attempt ⟨pool, []⟩ ⟨0, .check⟩) := .cons rfl (.nil _)
  have hnew : RepoSlots.new 1 = .ok pool := rfl
  exact (slots_run hnew hrun).2.2.2 (by decide) (.acquire ⟨1, .check⟩) ⟨1, .check⟩ _ rfl rfl rfl (by decide)

end SlotSystem
end RepoWatch
