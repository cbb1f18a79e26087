import Mathlib
/-!
# Lib.TokenBucket — credit that grows at a rate

A bucket is refilled at a rate, up to what the rate gives in a fixed time, and a new rate starts without credit.  A bucket
without a rate has no bound.  As long as a bucket is only refilled at one rate, what it pays from some time on is at most
what the rate gives since then and one filling, also when the bucket is dropped on the way and made anew (`Paced`).
-/
namespace Lib

set_option linter.unusedSectionVars false

variable {K : Type} [Field K] [LinearOrder K] [IsStrictOrderedRing K]

/-- `credit` is `none` when there is no bound. -/
structure TokenBucket (K : Type) where
  updated : K
  rate : Option K
  credit : Option K

namespace TokenBucket

def new (now : K) : TokenBucket K := ⟨now, none, some 0⟩

/-- `capacity` is the time whose worth of credit is kept at most. -/
def refill (capacity : K) (b : TokenBucket K) (rate : Option K) (now : K) : TokenBucket K where
  updated := now
  rate := rate
  credit := match rate with
    | none => none
    | some r =>
      if some r ≠ b.rate then some 0
      else some (match b.credit with
        | none => r * capacity
        | some c => min (r * capacity) (c + max 0 (now - b.updated) * r))

/-- As much of an amount as the credit allows. -/
def allows (b : TokenBucket K) (a : K) : K :=
  match b.credit with
  | none => a
  | some c => min a c

def spend (b : TokenBucket K) (a : K) : TokenBucket K := { b with credit := b.credit.map (· - a) }

variable {capacity rate start clock now spent a : K} {b : TokenBucket K}

@[simp] theorem updated_spend : (b.spend a).updated = b.updated := rfl
@[simp] theorem rate_spend : (b.spend a).rate = b.rate := rfl

@[simp] theorem spend_zero : b.spend 0 = b := by
  unfold spend
  cases b with
  | mk updated rate credit => cases credit <;> simp

theorem spend_spend (a' : K) : (b.spend a).spend a' = b.spend (a + a') := by
  unfold spend
  cases b.credit <;> simp [sub_sub]

theorem allows_le : b.allows a ≤ a := by
  unfold allows
  cases b.credit with
  | none => exact le_rfl
  | some c => exact min_le_left a c

theorem allows_le_credit {c : K} (h : b.credit = some c) : b.allows a ≤ c := by
  unfold allows
  rw [h]
  exact min_le_right a c

/-- Credit is never negative, and bounded by the rate. -/
structure Sound (capacity : K) (b : TokenBucket K) : Prop where
  nonneg : ∀ c, b.credit = some c → 0 ≤ c
  bounded : ∀ r, b.rate = some r → ∃ c, b.credit = some c ∧ c ≤ r * capacity
  positive : ∀ r, b.rate = some r → 0 < r

theorem sound_new : Sound capacity (new now) where
  nonneg _ h := Option.some.inj h ▸ le_rfl
  bounded _ h := by cases h
  positive _ h := by cases h

theorem Sound.refill (h : Sound capacity b) (hcapacity : 0 ≤ capacity) {rate : Option K} (hrate : ∀ r, rate = some r → 0 < r)
    (now : K) : Sound capacity (b.refill capacity rate now) := by
  cases rate with
  | none => exact ⟨fun _ h => (by cases h), fun _ h => (by cases h), fun _ h => by cases h⟩
  | some r =>
    have hr := hrate r rfl
    have hfull : 0 ≤ r * capacity := mul_nonneg hr.le hcapacity
    refine ⟨fun c hc => ?_, fun r' hr' => ?_, fun r' hr' => Option.some.inj hr' ▸ hr⟩
    · dsimp only [TokenBucket.refill] at hc
      split at hc
      · exact Option.some.inj hc ▸ le_rfl
      · rw [← Option.some.inj hc]
        cases hb : b.credit with
        | none => exact hfull
        | some c' =>
          have := h.nonneg c' hb
          exact le_min hfull (add_nonneg this (mul_nonneg (le_max_left _ _) hr.le))
    · obtain rfl : r = r' := Option.some.inj hr'
      dsimp only [TokenBucket.refill]
      split
      · exact ⟨0, rfl, hfull⟩
      · refine ⟨_, rfl, ?_⟩
        cases b.credit with
        | none => exact le_rfl
        | some c' => exact min_le_left _ _

theorem Sound.allows_nonneg (h : Sound capacity b) (ha : 0 ≤ a) : 0 ≤ b.allows a := by
  unfold allows
  cases hc : b.credit with
  | none => exact ha
  | some c => exact le_min ha (h.nonneg c hc)

/-- An amount within the credit can be paid. -/
theorem Sound.spend (h : Sound capacity b) (ha : 0 ≤ a) (hle : ∀ c, b.credit = some c → a ≤ c) :
    Sound capacity (b.spend a) := by
  refine ⟨fun c hc => ?_, fun r hr => ?_, h.positive⟩
  · obtain ⟨c', hc', rfl⟩ := Option.map_eq_some_iff.1 hc
    exact sub_nonneg.2 (hle c' hc')
  · obtain ⟨c, hc, hle'⟩ := h.bounded r hr
    refine ⟨c - a, by rw [TokenBucket.spend, hc]; rfl, ?_⟩
    linarith

/-! ## Windows -/

/-- Just refilled at the rate, after paying `spent` since `start`. -/
structure Ready (capacity rate start now spent : K) (b : TokenBucket K) : Prop where
  refilled : b.updated = now
  sameRate : b.rate = some rate
  credit : ∃ c, b.credit = some c ∧ 0 ≤ c ∧ c ≤ rate * capacity ∧ spent + c ≤ rate * (now - start) + rate * capacity

/-- What a bucket, if it is there, has paid since `start` when it is only refilled at the rate. -/
structure Paced (capacity rate start clock spent : K) (b : Option (TokenBucket K)) : Prop where
  paid : spent = 0 ∨ start ≤ clock ∧ spent ≤ rate * (clock - start) + rate * capacity
  credit : ∀ b', b = some b' → b'.rate = some rate → b'.updated ≤ clock ∧ ∃ c, b'.credit = some c ∧ 0 ≤ c ∧
    c ≤ rate * capacity ∧ (spent = 0 ∨ start ≤ b'.updated ∧ spent + c ≤ rate * (b'.updated - start) + rate * capacity)

theorem Sound.paced {b : Option (TokenBucket K)} (h : ∀ b', b = some b' → Sound capacity b' ∧ b'.updated ≤ clock) :
    Paced capacity rate start clock 0 b where
  paid := .inl rfl
  credit b' hb' hrate := by
    obtain ⟨hsound, hclock⟩ := h b' hb'
    obtain ⟨c, hc, hle⟩ := hsound.bounded rate hrate
    exact ⟨hclock, c, hc, hsound.nonneg c hc, hle, .inl rfl⟩

theorem Paced.later {b : Option (TokenBucket K)} (h : Paced capacity rate start clock spent b) (hrate : 0 ≤ rate)
    (hle : clock ≤ now) : Paced capacity rate start now spent b where
  paid := by
    refine h.paid.imp_right fun hs => ⟨hs.1.trans hle, hs.2.trans ?_⟩
    have := mul_le_mul_of_nonneg_left (sub_le_sub_right hle start) hrate
    linarith
  credit b' hb' hr := by
    obtain ⟨hclock, hcredit⟩ := h.credit b' hb' hr
    exact ⟨hclock.trans hle, hcredit⟩

theorem Paced.drop {b : Option (TokenBucket K)} (h : Paced capacity rate start clock spent b) :
    Paced capacity rate start clock spent none where
  paid := h.paid
  credit _ hb := by cases hb

/-- **A refill at the rate** leaves credit within what the window still allows. -/
theorem Paced.refill {b : Option (TokenBucket K)} (h : Paced capacity rate start clock spent b) (hrate : 0 ≤ rate)
    (hcapacity : 0 ≤ capacity) (hle : clock ≤ now) (hstart : start ≤ now) :
    Ready capacity rate start now spent ((b.getD (new now)).refill capacity (some rate) now) := by
  have hfull : 0 ≤ rate * capacity := mul_nonneg hrate hcapacity
  have hgrow : 0 ≤ rate * (now - start) := mul_nonneg hrate (sub_nonneg.2 hstart)
  have hspent : spent ≤ rate * (now - start) + rate * capacity := by
    rcases (h.later hrate hle).paid with hs | hs
    · linarith
    · exact hs.2
  refine ⟨rfl, rfl, ?_⟩
  dsimp only [TokenBucket.refill]
  split
  · exact ⟨0, rfl, le_rfl, hfull, by linarith⟩
  · rename_i hsame
    rw [ne_eq, not_not] at hsame
    cases b with
    | none => cases hsame
    | some b =>
      obtain ⟨hclock, c, hc, hnonneg, hbound, hcredit⟩ := h.credit b rfl hsame.symm
      dsimp only [Option.getD_some]
      rw [hc]
      have hmax : max 0 (now - b.updated) = now - b.updated := max_eq_right (sub_nonneg.2 (hclock.trans hle))
      have hearned : 0 ≤ (now - b.updated) * rate := mul_nonneg (sub_nonneg.2 (hclock.trans hle)) hrate
      refine ⟨_, rfl, le_min hfull (by rw [hmax]; linarith), min_le_left _ _, ?_⟩
      rcases hcredit with hs | ⟨-, hs⟩
      · have := min_le_left (rate * capacity) (c + max 0 (now - b.updated) * rate)
        linarith
      · have := min_le_right (rate * capacity) (c + max 0 (now - b.updated) * rate)
        rw [hmax] at this ⊢
        nlinarith

theorem Ready.spend (h : Ready capacity rate start now spent b) (ha : 0 ≤ a)
    (hle : ∀ c, b.credit = some c → a ≤ c) : Ready capacity rate start now (spent + a) (b.spend a) := by
  obtain ⟨c, hc, hnonneg, hbound, htotal⟩ := h.credit
  have := hle c hc
  refine ⟨h.refilled, h.sameRate, c - a, by rw [TokenBucket.spend, hc]; rfl, by linarith, by linarith, by linarith⟩

theorem Ready.paced (h : Ready capacity rate start now spent b) (hstart : start ≤ now) :
    Paced capacity rate start now spent (some b) := by
  obtain ⟨c, hc, hnonneg, hbound, htotal⟩ := h.credit
  refine ⟨.inr ⟨hstart, by linarith⟩, fun b' hb' _ => ?_⟩
  obtain rfl : b = b' := Option.some.inj hb'
  exact ⟨h.refilled.le, c, hc, hnonneg, hbound, .inr ⟨h.refilled ▸ hstart, by rw [h.refilled]; exact htotal⟩⟩

/-- **What is paid in a window** is bounded by its length. -/
theorem Paced.le {b : Option (TokenBucket K)} {length : K} (h : Paced capacity rate start clock spent b) (hrate : 0 ≤ rate)
    (hcapacity : 0 ≤ capacity) (hlength : 0 ≤ length) (hclock : spent ≠ 0 → clock ≤ start + length) :
    spent ≤ rate * length + rate * capacity := by
  have hfull : 0 ≤ rate * capacity := mul_nonneg hrate hcapacity
  rcases h.paid with hs | ⟨-, hs⟩
  · have := mul_nonneg hrate hlength
    linarith
  · by_cases hzero : spent = 0
    · have := mul_nonneg hrate hlength
      linarith
    · have := mul_le_mul_of_nonneg_left (sub_le_iff_le_add'.2 (hclock hzero)) hrate
      linarith

end TokenBucket
end Lib
