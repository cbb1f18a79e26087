import Mathlib
import RepoWatch.Lib.Run
import RepoWatch.Lib.Table
import RepoWatch.Lib.TokenBucket
import RepoWatch.Text
/-!
# Bandwidth — one budget for every warm

Each step refills the buckets of the limits that apply and gives each waiting request a turn.  Requests come and go and the
policy changes between two steps.  While a limit stays the same, what goes through its bucket is bounded by the time that
passes (`bandwidth_capped`).
-/
namespace RepoWatch

open Lib

/-- A limit that `validate_limit` lets pass, in bytes for each second. -/
structure Rate where
  value : ℚ
  positive : 0 < value
  deriving DecidableEq

inductive Day where
  | mon | tue | wed | thu | fri | sat | sun
  deriving DecidableEq

def DAYS : List Day := [.mon, .tue, .wed, .thu, .fri, .sat, .sun]

/-- `minute`: the text of a time in minutes, `HH:MM`, or `24:00` at the end of a window. -/
def minute (value : Str) (atEnd : Bool) : Option Nat :=
  if atEnd && decide (value = "24:00".toList) then some 1440
  else match value with
  | [h, h', ':', m, m'] =>
    if !(h.isDigit && h'.isDigit && m.isDigit && m'.isDigit) then none
    else
      let hour := decimal [h, h']
      let part := decimal [m, m']
      if 23 < hour || 59 < part then none else some (hour * 60 + part)
  | _ => none

/-- A window of the schedule, as `validate_schedule` lets it pass. -/
structure ScheduleWindow where
  days : List Day := DAYS
  start : Str
  stop : Str
  limit : Option Rate
  start_ok : (minute start false).isSome
  stop_ok : (minute stop true).isSome

structure BandwidthConfig where
  limit : Option Rate
  schedule : List ScheduleWindow
  repos : List (Str × Option Rate)

/-- Whether a minute of the week lies in a window. -/
def ScheduleWindow.covers (window : ScheduleWindow) (position : Nat) : Bool :=
  let start : Int := (minute window.start false).get window.start_ok
  let stop : Int := (minute window.stop true).get window.stop_ok
  let duration := if (stop - start) % 1440 = 0 then 1440 else (stop - start) % 1440
  window.days.any fun day => decide ((position - (DAYS.idxOf day * 1440 + start)) % 10080 < duration)

/-- `position` is the minute of the week in the configured timezone. -/
def scheduledLimit (config : BandwidthConfig) (position : Nat) : Option Rate :=
  match config.schedule.find? fun window => window.covers position with
  | none => config.limit
  | some window => window.limit

/-! ## The budget -/

/-- `_Request`, with a ticket for its identity. -/
structure BandwidthRequest where
  ticket : Nat
  repoId : Str
  remaining : ℚ
  fallbackLimit : Option Rate

/-- `_Bucket`: a tenth of a second of credit is kept. -/
abbrev Bucket := TokenBucket ℚ

def Bucket.refill (b : Bucket) (rate : Option Rate) (now : ℚ) : Bucket :=
  TokenBucket.refill (1 / 10) b (rate.map Rate.value) now

/-- By repository, and the one of all of them under `none`. -/
abbrev Buckets := Dict (Option Str) Bucket

structure Budget where
  requests : List BandwidthRequest
  buckets : Buckets
  config : Option BandwidthConfig
  defaultLimit : Option Rate

/-- What a request is given at its turn. -/
structure Grant where
  ticket : Nat
  repoId : Str
  bytes : ℚ

namespace Budget
variable (budget : Budget)

def globalRate (position : Nat) : Option Rate :=
  match budget.config with
  | none => budget.defaultLimit
  | some config => scheduledLimit config position

def repoRates : Dict Str (Option Rate) :=
  match budget.config with
  | none => .empty
  | some config => .ofPairs config.repos

/-- `repo_rates.get(request.repo_id, request.fallback_limit)`. -/
def rateOf (request : BandwidthRequest) : Option Rate :=
  (budget.repoRates.lookup request.repoId).getD request.fallbackLimit

/-- A stricter limit seen before stays. -/
def stricter (previous rate : Option Rate) : Option Rate :=
  match previous, rate with
  | none, _ => rate
  | some p, none => some p
  | some p, some r => if p.value < r.value then some p else some r

/-- The limit of each bucket that is refilled. -/
def rates (position : Nat) : Dict (Option Str) (Option Rate) :=
  budget.requests.foldl (fun rates request =>
      rates.set (some request.repoId) (stricter (rates.lookup (some request.repoId)).join (budget.rateOf request)))
    (.ofPairs [(none, budget.globalRate position)])

end Budget

def Buckets.at (buckets : Buckets) (key : Option Str) (now : ℚ) : Bucket := (buckets.lookup key).getD (.new now)

def refillAll (buckets : Buckets) (rates : Dict (Option Str) (Option Rate)) (now : ℚ) : Buckets :=
  rates.rows.foldl (fun buckets (key, rate) => buckets.set key ((buckets.at key now).refill rate now)) buckets

/-- A turn for each request; those that are served leave the queue. -/
def serve (now : ℚ) : List BandwidthRequest → Buckets → List BandwidthRequest × Buckets × List Grant
  | [], buckets => ([], buckets, [])
  | request :: requests, buckets =>
    let common := buckets.at none now
    let specific := buckets.at (some request.repoId) now
    let allowance := specific.allows (common.allows request.remaining)
    let rest := { request with remaining := request.remaining - allowance }
    let buckets := (buckets.set none (common.spend allowance)).set (some request.repoId) (specific.spend allowance)
    let (kept, buckets, grants) := serve now requests buckets
    (if 0 < rest.remaining then rest :: kept else kept, buckets, ⟨request.ticket, request.repoId, allowance⟩ :: grants)

namespace Budget
variable (budget : Budget)

/-- `_step`. -/
def step (now : ℚ) (position : Nat) : Budget × List Grant :=
  let (kept, buckets, grants) := serve now budget.requests (refillAll budget.buckets (budget.rates position) now)
  let requests := kept.rotate 1
  let active := requests.map BandwidthRequest.repoId
  let buckets := buckets.filter fun (key, bucket) =>
    !(key.any (fun repoId => !active.contains repoId) && decide (60 < now - bucket.updated))
  ({ budget with requests := requests, buckets := buckets }, grants)

/-- The request of `consume` enters the queue. -/
def enqueue (ticket : Nat) (repoId : Str) (bytes : ℚ) (fallbackLimit : Option Rate) : Budget :=
  { budget with requests := budget.requests ++ [⟨ticket, repoId, bytes, fallbackLimit⟩] }

/-- A `consume` that ends takes its request out of the queue. -/
def withdraw (ticket : Nat) : Budget :=
  { budget with requests := budget.requests.filter fun request => decide (request.ticket ≠ ticket) }

def new (defaultLimit : Option Rate) : Budget := ⟨[], .empty, none, defaultLimit⟩

end Budget

/-! ## Runs -/

structure BandwidthSystem where
  budget : Budget
  clock : ℚ
  issued : Nat

inductive BandwidthAction where
  | consume (ticket : Nat) (repoId : Str) (bytes : ℚ) (fallbackLimit : Option Rate)
  | cancel (ticket : Nat)
  | policy (config : BandwidthConfig)
  | step (now : ℚ) (position : Nat) (grants : List Grant)

/-- What goes through a bucket: through the one of all repositories, everything. -/
def through (key : Option Str) (grants : List Grant) : ℚ :=
  ((grants.filter fun grant => key.all fun repoId => decide (repoId = grant.repoId)).map Grant.bytes).sum

def BandwidthAction.through (key : Option Str) : BandwidthAction → ℚ
  | .step _ _ grants => RepoWatch.through key grants
  | _ => 0

def BandwidthAction.grantedTo (ticket : Nat) : BandwidthAction → ℚ
  | .step _ _ grants => ((grants.filter fun grant => decide (grant.ticket = ticket)).map Grant.bytes).sum
  | _ => 0

/-- The bytes that actions let through a bucket. -/
def granted (key : Option Str) (actions : List BandwidthAction) : ℚ := (actions.map (·.through key)).sum

def grantedTo (ticket : Nat) (actions : List BandwidthAction) : ℚ := (actions.map (·.grantedTo ticket)).sum

namespace BandwidthSystem

inductive Step : BandwidthSystem → BandwidthAction → BandwidthSystem → Prop
  | consume {s : BandwidthSystem} {repoId : Str} {bytes : ℚ} {fallbackLimit : Option Rate} : 0 < bytes →
      Step s (.consume s.issued repoId bytes fallbackLimit)
        { s with budget := s.budget.enqueue s.issued repoId bytes fallbackLimit, issued := s.issued + 1 }
  | cancel {s : BandwidthSystem} {ticket : Nat} : Step s (.cancel ticket) { s with budget := s.budget.withdraw ticket }
  | policy {s : BandwidthSystem} {config : BandwidthConfig} :
      Step s (.policy config) { s with budget := { s.budget with config := some config } }
  | step {s : BandwidthSystem} {now : ℚ} {position : Nat} : s.clock ≤ now →
      Step s (.step now position (s.budget.step now position).2)
        { s with budget := (s.budget.step now position).1, clock := now }

def Initial (s : BandwidthSystem) : Prop := ∃ defaultLimit, s.budget = .new defaultLimit

end BandwidthSystem

namespace Budget

/-- A bucket is in use while a request waits for it. -/
def Live (budget : Budget) : Option Str → Prop
  | none => True
  | some repoId => ∃ request ∈ budget.requests, request.repoId = repoId

/-- The limit of a bucket: the global one, the configured one of a repository, or the strictest of its requests. -/
def LimitIs (budget : Budget) (position : Nat) (key : Option Str) (limit : Rate) : Prop :=
  match key with
  | none => budget.globalRate position = some limit
  | some repoId => match budget.repoRates.lookup repoId with
    | some configured => configured = some limit
    | none => (∃ request ∈ budget.requests, request.repoId = repoId ∧ request.fallbackLimit = some limit) ∧
        ∀ request ∈ budget.requests, request.repoId = repoId → ∀ other, request.fallbackLimit = some other →
          limit.value ≤ other.value

end Budget

/-- A step at a time of the window while the limit is this one; what comes between the steps does not matter. -/
def During (key : Option Str) (limit : Rate) (start length : ℚ) (s : BandwidthSystem) (a : BandwidthAction)
    (s' : BandwidthSystem) : Prop :=
  BandwidthSystem.Step s a s' ∧ ∀ now position grants, a = .step now position grants →
    start ≤ now ∧ now ≤ start + length ∧ (s.budget.Live key → s.budget.LimitIs position key limit)

/-! ## The limits of a step -/

section
variable {budget : Budget} {position : Nat} {key : Option Str} {limit : Rate} {now : ℚ} {buckets : Buckets}

theorem stricter_cases (previous rate : Option Rate) :
    Budget.stricter previous rate = previous ∨ Budget.stricter previous rate = rate := by
  unfold Budget.stricter
  cases previous with
  | none => exact .inr rfl
  | some p =>
    cases rate with
    | none => exact .inl rfl
    | some r =>
      dsimp only
      split
      · exact .inl rfl
      · exact .inr rfl

theorem Rate.eq_of_value {l r : Rate} (h : l.value = r.value) : l = r := by
  cases l
  cases r
  cases h
  rfl

/-- **The strictest of the limits comes out**, whatever their order. -/
theorem foldl_stricter : ∀ (rates : List (Option Rate)) (acc : Option (Option Rate)),
    (acc = some (some limit) ∨ some limit ∈ rates) → (∀ r, some r ∈ rates → limit.value ≤ r.value) →
    (∀ r, acc = some (some r) → limit.value ≤ r.value) →
    rates.foldl (fun acc rate => some (Budget.stricter acc.join rate)) acc = some (some limit)
  | [], acc, hmem, _, _ => hmem.resolve_right List.not_mem_nil
  | rate :: rates, acc, hmem, hle, hacc => by
    have hrest : ∀ r, some r ∈ rates → limit.value ≤ r.value := fun r hr => hle r (List.mem_cons_of_mem _ hr)
    have hprevious : ∀ r, acc.join = some r → limit.value ≤ r.value := fun r hr => hacc r (Option.join_eq_some_iff.1 hr)
    refine foldl_stricter rates _ ?_ hrest fun r hr => ?_
    · by_cases hlater : some limit ∈ rates
      · exact .inr hlater
      · refine .inl (congrArg some ?_)
        rcases hmem with rfl | hmem
        · unfold Budget.stricter
          cases rate with
          | none => rfl
          | some r =>
            dsimp only [Option.join_some]
            split
            · rfl
            · rename_i hlt
              have := hle r List.mem_cons_self
              rw [Rate.eq_of_value (le_antisymm this (not_lt.1 hlt))]
        · obtain rfl : some limit = rate := (List.mem_cons.1 hmem).resolve_right hlater
          unfold Budget.stricter
          cases hp : acc.join with
          | none => rfl
          | some p => exact if_neg (not_lt.2 (hprevious p hp))
    · rcases stricter_cases acc.join rate with h | h
      · exact hprevious r (h.symm.trans (Option.some.inj hr))
      · exact hle r (h.symm.trans (Option.some.inj hr) ▸ List.mem_cons_self)

theorem lookup_rates (budget : Budget) (position : Nat) (key : Option Str) : (budget.rates position).lookup key =
    match key with
    | none => some (budget.globalRate position)
    | some repoId => ((budget.requests.filter fun request => decide (request.repoId = repoId)).map budget.rateOf).foldl
        (fun acc rate => some (Budget.stricter acc.join rate)) none := by
  have hfold : ∀ (requests : List BandwidthRequest) (rates : Dict (Option Str) (Option Rate)),
      (requests.foldl (fun rates request => rates.set (some request.repoId)
        (Budget.stricter (rates.lookup (some request.repoId)).join (budget.rateOf request))) rates).lookup key =
      match key with
      | none => rates.lookup none
      | some repoId => ((requests.filter fun request => decide (request.repoId = repoId)).map budget.rateOf).foldl
          (fun acc rate => some (Budget.stricter acc.join rate)) (rates.lookup (some repoId)) := by
    intro requests
    induction requests with
    | nil => cases key <;> exact fun _ => rfl
    | cons request requests ih =>
      intro rates
      rw [List.foldl_cons, ih]
      cases key with
      | none => simp
      | some repoId =>
        by_cases h : request.repoId = repoId
        · subst h
          simp
        · simp [h, Ne.symm h]
  rw [Budget.rates, hfold]
  cases key <;> rfl

theorem lookup_rates_of_not_live (h : ¬ budget.Live key) : (budget.rates position).lookup key = none := by
  rw [lookup_rates]
  cases key with
  | none => exact absurd trivial h
  | some repoId =>
    have hnone : (budget.requests.filter fun request => decide (request.repoId = repoId)) = [] :=
      List.filter_eq_nil_iff.2 fun request hrequest hrepo => h ⟨request, hrequest, of_decide_eq_true hrepo⟩
    dsimp only
    rw [hnone]
    rfl

/-- **The limit of a bucket in use is the one it is refilled at.** -/
theorem lookup_rates_of_limit (hlive : budget.Live key) (hlimit : budget.LimitIs position key limit) :
    (budget.rates position).lookup key = some (some limit) := by
  rw [lookup_rates]
  cases key with
  | none => exact congrArg some hlimit
  | some repoId =>
    have hmem : ∀ rate, rate ∈ (budget.requests.filter fun request => decide (request.repoId = repoId)).map budget.rateOf ↔
        ∃ request ∈ budget.requests, request.repoId = repoId ∧ budget.rateOf request = rate := by
      simp [and_assoc]
    unfold Budget.LimitIs at hlimit
    dsimp only at hlimit ⊢
    cases hconfigured : budget.repoRates.lookup repoId with
    | some configured =>
      rw [hconfigured] at hlimit
      obtain rfl : configured = some limit := hlimit
      have hrate : ∀ request : BandwidthRequest, request.repoId = repoId → budget.rateOf request = some limit := by
        rintro request rfl
        rw [Budget.rateOf, hconfigured]
        rfl
      obtain ⟨request, hrequest, hrepo⟩ := hlive
      refine foldl_stricter _ none (.inr ((hmem _).2 ⟨request, hrequest, hrepo, hrate request hrepo⟩)) ?_ fun _ h => by cases h
      intro r hr
      obtain ⟨request', -, hrepo', hr'⟩ := (hmem _).1 hr
      rw [hrate request' hrepo'] at hr'
      exact (Option.some.inj hr') ▸ le_rfl
    | none =>
      rw [hconfigured] at hlimit
      obtain ⟨⟨request, hrequest, hrepo, hfallback⟩, hle⟩ := hlimit
      have hrate : ∀ request : BandwidthRequest, request.repoId = repoId → budget.rateOf request = request.fallbackLimit := by
        rintro request rfl
        rw [Budget.rateOf, hconfigured]
        rfl
      refine foldl_stricter _ none (.inr ((hmem _).2 ⟨request, hrequest, hrepo, (hrate request hrepo).trans hfallback⟩)) ?_
        fun _ h => by cases h
      intro r hr
      obtain ⟨request', hrequest', hrepo', hr'⟩ := (hmem _).1 hr
      exact hle request' hrequest' hrepo' r ((hrate request' hrepo').symm.trans hr')

/-! ## Refills and turns -/

/-- **Each bucket with a limit is refilled once**; the others stay. -/
theorem lookup_refillAll (buckets : Buckets) (rates : Dict (Option Str) (Option Rate)) (now : ℚ) (key : Option Str) :
    (refillAll buckets rates now).lookup key = match rates.lookup key with
      | none => buckets.lookup key
      | some rate => some ((buckets.at key now).refill rate now) := by
  have hfold : ∀ (rows : List (Option Str × Option Rate)) (buckets : Buckets), (rows.map Prod.fst).Nodup →
      ((∀ p ∈ rows, p.1 ≠ key) → (rows.foldl (fun buckets (p : Option Str × Option Rate) =>
        buckets.set p.1 ((buckets.at p.1 now).refill p.2 now)) buckets).lookup key = buckets.lookup key) ∧
      ∀ rate, (key, rate) ∈ rows → (rows.foldl (fun buckets (p : Option Str × Option Rate) =>
        buckets.set p.1 ((buckets.at p.1 now).refill p.2 now)) buckets).lookup key =
          some ((buckets.at key now).refill rate now) := by
    intro rows
    induction rows with
    | nil => exact fun _ _ => ⟨fun _ => rfl, fun _ h => by cases h⟩
    | cons p rows ih =>
      intro buckets hnodup
      rw [List.map_cons, List.nodup_cons] at hnodup
      obtain ⟨hother, hthis⟩ := ih (buckets.set p.1 ((buckets.at p.1 now).refill p.2 now)) hnodup.2
      rw [List.foldl_cons]
      constructor
      · intro hne
        rw [hother fun q hq => hne q (List.mem_cons_of_mem _ hq), Dict.lookup_set, if_neg (Ne.symm (hne p List.mem_cons_self))]
      · intro rate hmem
        rcases List.mem_cons.1 hmem with rfl | hmem
        · rw [hother fun q hq he => hnodup.1 (List.mem_map.2 ⟨q, hq, he⟩), Dict.lookup_set, if_pos rfl]
        · have hne : key ≠ p.1 := fun he => hnodup.1 (he ▸ List.mem_map_of_mem hmem)
          have hat : Buckets.at (buckets.set p.1 ((buckets.at p.1 now).refill p.2 now)) key now = buckets.at key now := by
            unfold Buckets.at
            rw [Dict.lookup_set, if_neg hne]
          rw [hthis rate hmem, hat]
  obtain ⟨hother, hthis⟩ := hfold rates.rows buckets rates.keysNodup
  cases hrate : rates.lookup key with
  | none => exact hother fun p hp he => Dict.lookup_eq_none_iff.1 hrate (he ▸ List.mem_map_of_mem hp)
  | some rate => exact hthis rate (Dict.lookup_eq_some_iff.1 hrate)

theorem through_cons (key : Option Str) (grant : Grant) (grants : List Grant) : through key (grant :: grants) =
    (if key.all fun repoId => decide (repoId = grant.repoId) then grant.bytes else 0) + through key grants := by
  unfold through
  rw [List.filter_cons]
  split <;> simp

theorem at_set (buckets : Buckets) (key key' : Option Str) (b : Bucket) (now : ℚ) :
    Buckets.at (buckets.set key b) key' now = if key' = key then b else buckets.at key' now := by
  unfold Buckets.at
  rw [Dict.lookup_set]
  split <;> rfl

/-- The buckets after a turn. -/
theorem at_turn (buckets : Buckets) (repoId : Str) (allowance : ℚ) (now : ℚ) (key : Option Str) :
    Buckets.at ((buckets.set none ((buckets.at none now).spend allowance)).set (some repoId)
      ((buckets.at (some repoId) now).spend allowance)) key now =
      (buckets.at key now).spend (if key.all fun repoId' => decide (repoId' = repoId) then allowance else 0) := by
  rw [at_set, at_set]
  cases key with
  | none => simp
  | some repoId' =>
    by_cases h : repoId' = repoId
    · subst h
      simp
    · simp [h]

/-- What the turns of a queue leave. -/
structure Turns (requests : List BandwidthRequest) (buckets : Buckets) (now : ℚ) (kept : List BandwidthRequest)
    (buckets' : Buckets) (grants : List Grant) : Prop where
  sound : ∀ key, TokenBucket.Sound (1 / 10) (buckets'.at key now)
  spent : ∀ key, buckets'.at key now = (buckets.at key now).spend (through key grants)
  nonneg : ∀ grant ∈ grants, 0 ≤ grant.bytes
  remaining : ∀ request ∈ kept, 0 < request.remaining
  other : ∀ key, (∀ request ∈ requests, some request.repoId ≠ key) → key ≠ none → buckets'.lookup key = buckets.lookup key ∧
    through key grants = 0
  tickets : ∀ ticket, ((kept.filter fun request => decide (request.ticket = ticket)).map BandwidthRequest.remaining).sum +
      ((grants.filter fun grant => decide (grant.ticket = ticket)).map Grant.bytes).sum =
    ((requests.filter fun request => decide (request.ticket = ticket)).map BandwidthRequest.remaining).sum
  kept : (kept.map BandwidthRequest.ticket).Sublist (requests.map BandwidthRequest.ticket)

theorem turns_serve (now : ℚ) : ∀ (requests : List BandwidthRequest) (buckets : Buckets),
    (∀ request ∈ requests, 0 < request.remaining) → (∀ key, TokenBucket.Sound (1 / 10) (buckets.at key now)) →
    Turns requests buckets now (serve now requests buckets).1 (serve now requests buckets).2.1
      (serve now requests buckets).2.2
  | [], buckets, _, hsound => by
    exact ⟨hsound, fun key => TokenBucket.spend_zero.symm, fun _ h => (by cases h), fun _ h => (by cases h),
      fun key _ _ => ⟨rfl, rfl⟩, fun _ => add_zero 0, List.Sublist.refl _⟩
  | request :: requests, buckets, hpositive, hsound => by
    have hremaining := hpositive request List.mem_cons_self
    have hcommon := (hsound none).allows_nonneg hremaining.le
    have hallowed := (hsound (some request.repoId)).allows_nonneg hcommon
    rw [serve]
    dsimp only
    generalize hallowance : (buckets.at (some request.repoId) now).allows ((buckets.at none now).allows request.remaining) =
      allowance at hallowed
    have hsound' : ∀ key, TokenBucket.Sound (1 / 10) (Buckets.at ((buckets.set none ((buckets.at none now).spend allowance)).set
        (some request.repoId) ((buckets.at (some request.repoId) now).spend allowance)) key now) := by
      intro key
      rw [at_turn]
      by_cases hkey : key.all (fun repoId' => decide (repoId' = request.repoId)) = true
      · rw [if_pos hkey]
        refine (hsound key).spend hallowed fun c hc => ?_
        cases key with
        | none => exact hallowance ▸ TokenBucket.allows_le.trans (TokenBucket.allows_le_credit hc)
        | some repoId =>
          obtain rfl : repoId = request.repoId := of_decide_eq_true hkey
          exact hallowance ▸ TokenBucket.allows_le_credit hc
      · rw [if_neg hkey, TokenBucket.spend_zero]
        exact hsound key
    obtain ⟨sound, spent, nonneg, remaining, other, tickets, kept⟩ := turns_serve now requests _
      (fun r hr => hpositive r (List.mem_cons_of_mem _ hr)) hsound'
    refine ⟨sound, fun key => ?_, fun grant hgrant => ?_, fun r hr => ?_, fun key hkey hne => ?_, fun ticket => ?_, ?_⟩
    · rw [spent, at_turn, TokenBucket.spend_spend, through_cons]
    · rcases List.mem_cons.1 hgrant with rfl | hgrant
      · exact hallowed
      · exact nonneg grant hgrant
    · split at hr
      · rename_i hrest
        rcases List.mem_cons.1 hr with rfl | hr
        · exact hrest
        · exact remaining r hr
      · exact remaining r hr
    · obtain ⟨hlookup, hthrough⟩ := other key (fun r hr => hkey r (List.mem_cons_of_mem _ hr)) hne
      have hne' := hkey request List.mem_cons_self
      rw [hlookup, Dict.lookup_set, if_neg (Ne.symm hne'), Dict.lookup_set, if_neg hne, through_cons, hthrough]
      refine ⟨rfl, ?_⟩
      cases key with
      | none => exact absurd rfl hne
      | some repoId =>
        have hrepo : repoId ≠ request.repoId := fun h => hne' (congrArg some h.symm)
        simp [hrepo]
    · have hzero : ¬ 0 < request.remaining - allowance → request.remaining - allowance = 0 := fun h =>
        le_antisymm (not_lt.1 h) (sub_nonneg.2 (hallowance ▸ TokenBucket.allows_le.trans TokenBucket.allows_le))
      have := tickets ticket
      by_cases hticket : request.ticket = ticket
      · split
        · simp only [List.filter_cons, hticket, decide_true, if_true, List.map_cons, List.sum_cons]
          linarith
        · rename_i hrest
          have := hzero hrest
          simp only [List.filter_cons, hticket, decide_true, if_true, List.map_cons, List.sum_cons]
          linarith
      · split <;> simpa [List.filter_cons, hticket] using this
    · split
      · exact kept.cons_cons _
      · exact kept.cons _

end

/-! ## Steps -/

namespace BandwidthSystem

structure Consistent (s : BandwidthSystem) : Prop where
  remaining : ∀ request ∈ s.budget.requests, 0 < request.remaining
  sound : ∀ key b, s.budget.buckets.lookup key = some b → TokenBucket.Sound (1 / 10) b ∧ b.updated ≤ s.clock

section
variable {s s' s₀ : BandwidthSystem} {now : ℚ} {position : Nat} {key : Option Str} {limit : Rate} {start length spent : ℚ}
  {a : BandwidthAction} {actions : List BandwidthAction}

/-- The buckets of a step, once they are refilled. -/
def refilled (s : BandwidthSystem) (now : ℚ) (position : Nat) : Buckets :=
  refillAll s.budget.buckets (s.budget.rates position) now

theorem Consistent.sound_at (h : s.Consistent) (hle : s.clock ≤ now) (key : Option Str) :
    TokenBucket.Sound (1 / 10) (s.budget.buckets.at key now) ∧ (s.budget.buckets.at key now).updated ≤ now := by
  unfold Buckets.at
  cases hb : s.budget.buckets.lookup key with
  | none => exact ⟨TokenBucket.sound_new, le_rfl⟩
  | some b => exact ⟨(h.sound key b hb).1, (h.sound key b hb).2.trans hle⟩

theorem Consistent.sound_refilled (h : s.Consistent) (hle : s.clock ≤ now) (key : Option Str) :
    TokenBucket.Sound (1 / 10) ((s.refilled now position).at key now) ∧
      ((s.refilled now position).at key now).updated ≤ now := by
  have hat := h.sound_at hle key
  unfold refilled
  rw [Buckets.at, lookup_refillAll]
  cases hrate : (s.budget.rates position).lookup key with
  | none => exact hat
  | some rate =>
    refine ⟨hat.1.refill (by norm_num) (fun r hr => ?_) now, le_rfl⟩
    obtain ⟨limit, -, rfl⟩ := Option.map_eq_some_iff.1 hr
    exact limit.positive

theorem Consistent.served (h : s.Consistent) (hle : s.clock ≤ now) (position : Nat) :
    Turns s.budget.requests (s.refilled now position) now
      (RepoWatch.serve now s.budget.requests (s.refilled now position)).1
      (RepoWatch.serve now s.budget.requests (s.refilled now position)).2.1 (s.budget.step now position).2 :=
  turns_serve now s.budget.requests (s.refilled now position) h.remaining fun key => (h.sound_refilled hle key).1

/-- A bucket that a step leaves is the one that the turns left. -/
theorem lookup_step {b : Bucket} (h : (s.budget.step now position).1.buckets.lookup key = some b) :
    (RepoWatch.serve now s.budget.requests (s.refilled now position)).2.1.lookup key = some b := by
  rw [Dict.lookup_eq_some_iff] at h ⊢
  exact (List.mem_filter.1 h).1

theorem requests_step (s : BandwidthSystem) (now : ℚ) (position : Nat) : (s.budget.step now position).1.requests.Perm
    (RepoWatch.serve now s.budget.requests (s.refilled now position)).1 :=
  List.rotate_perm _ 1

theorem Step.consistent (hstep : Step s a s') (h : s.Consistent) : s'.Consistent := by
  cases hstep with
  | consume hbytes =>
    refine ⟨fun request hrequest => ?_, h.sound⟩
    rcases List.mem_append.1 hrequest with hrequest | hrequest
    · exact h.remaining request hrequest
    · rw [List.mem_singleton.1 hrequest]
      exact hbytes
  | cancel => exact ⟨fun request hrequest => h.remaining request (List.mem_filter.1 hrequest).1, h.sound⟩
  | policy => exact ⟨h.remaining, h.sound⟩
  | @step now position hle =>
    have hserved := h.served hle position
    refine ⟨fun request hrequest => hserved.remaining request ((requests_step _ now position).mem_iff.1 hrequest),
      fun key b hb => ?_⟩
    have hat : (RepoWatch.serve now s.budget.requests (s.refilled now position)).2.1.at key now = b := by
      rw [Buckets.at, lookup_step hb]
      rfl
    refine ⟨hat ▸ hserved.sound key, ?_⟩
    rw [← hat, hserved.spent]
    exact (h.sound_refilled hle key).2

theorem through_nonneg {grants : List Grant} (h : ∀ grant ∈ grants, 0 ≤ grant.bytes) (key : Option Str) :
    0 ≤ through key grants :=
  List.sum_nonneg fun x hx => by
    obtain ⟨grant, hgrant, rfl⟩ := List.mem_map.1 hx
    exact h grant (List.mem_filter.1 hgrant).1

/-- What goes through a bucket is within its credit. -/
theorem Consistent.through_le (h : s.Consistent) (hle : s.clock ≤ now) {c : ℚ}
    (hc : ((s.refilled now position).at key now).credit = some c) : through key (s.budget.step now position).2 ≤ c := by
  have hserved := h.served hle position
  refine sub_nonneg.1 ((hserved.sound key).nonneg _ ?_)
  rw [hserved.spent, TokenBucket.spend, hc]
  rfl

/-- **A step at the limit** keeps a bucket paced. -/
theorem Consistent.paced (h : s.Consistent) (hle : s.clock ≤ now) (hstart : start ≤ now)
    (hlimit : s.budget.Live key → s.budget.LimitIs position key limit)
    (hp : TokenBucket.Paced (1 / 10) limit.value start s.clock spent (s.budget.buckets.lookup key)) :
    TokenBucket.Paced (1 / 10) limit.value start now (spent + through key (s.budget.step now position).2)
      ((s.budget.step now position).1.buckets.lookup key) := by
  have hserved := h.served hle position
  by_cases hlive : s.budget.Live key
  · have hrate := lookup_rates_of_limit hlive (hlimit hlive)
    have hat : (s.refilled now position).at key now = (s.budget.buckets.at key now).refill (some limit) now := by
      unfold refilled
      rw [Buckets.at, lookup_refillAll, hrate]
      rfl
    have hready := hp.refill limit.positive.le (by norm_num) hle hstart
    have hpaid := (hready.spend (through_nonneg hserved.nonneg key) fun c hc => h.through_le hle (hat ▸ hc)).paced hstart
    have hspent := hserved.spent key
    rw [hat] at hspent
    cases hb : (s.budget.step now position).1.buckets.lookup key with
    | none => exact hpaid.drop
    | some b =>
      have hsame : (RepoWatch.serve now s.budget.requests (s.refilled now position)).2.1.at key now = b := by
        rw [Buckets.at, lookup_step hb]
        rfl
      rw [← hsame, hspent]
      exact hpaid
  · -- nothing waits for the bucket, and it stays as it is
    have hne : key ≠ none := fun h => hlive (h ▸ trivial)
    have hwaits : ∀ request ∈ s.budget.requests, some request.repoId ≠ key := by
      rintro request hrequest rfl
      exact hlive ⟨request, hrequest, rfl⟩
    obtain ⟨hlookup, hthrough⟩ := hserved.other key hwaits hne
    have hsame : (s.refilled now position).lookup key = s.budget.buckets.lookup key := by
      unfold refilled
      rw [lookup_refillAll, lookup_rates_of_not_live hlive]
    rw [hthrough, add_zero]
    have hlater := hp.later limit.positive.le hle
    cases hb : (s.budget.step now position).1.buckets.lookup key with
    | none => exact hlater.drop
    | some b => exact (lookup_step hb).symm.trans (hlookup.trans hsame) ▸ hlater

/-- **A new finite limit starts without credit.** -/
theorem Consistent.nothing_through (h : s.Consistent) (hle : s.clock ≤ now) (hlive : s.budget.Live key)
    (hlimit : s.budget.LimitIs position key limit)
    (hnew : (s.budget.buckets.lookup key).bind TokenBucket.rate ≠ some limit.value) :
    through key (s.budget.step now position).2 ≤ 0 := by
  refine h.through_le hle ?_
  have hrate := lookup_rates_of_limit hlive hlimit
  have hother : some limit.value ≠ (s.budget.buckets.at key now).rate := by
    unfold Buckets.at
    cases hb : s.budget.buckets.lookup key with
    | none => exact Option.some_ne_none _
    | some b =>
      rw [hb] at hnew
      exact Ne.symm hnew
  unfold refilled
  rw [Buckets.at, lookup_refillAll, hrate]
  exact if_pos hother

/-! ## Windows of a run -/

theorem granted_append (key : Option Str) (actions : List BandwidthAction) (a : BandwidthAction) :
    granted key (actions ++ [a]) = granted key actions + a.through key := by
  simp [granted]

theorem grantedTo_append (ticket : Nat) (actions : List BandwidthAction) (a : BandwidthAction) :
    grantedTo ticket (actions ++ [a]) = grantedTo ticket actions + a.grantedTo ticket := by
  simp [grantedTo]

/-- **What goes through a bucket in a window** in which its limit stays the same. -/
theorem Consistent.window (h : s.Consistent) (hlength : 0 ≤ length)
    (hrun : Run (During key limit start length) s actions s') :
    granted key actions ≤ limit.value * length + limit.value / 10 := by
  have hpaced : s'.Consistent ∧ TokenBucket.Paced (1 / 10) limit.value start s'.clock (granted key actions)
      (s'.budget.buckets.lookup key) ∧ (granted key actions ≠ 0 → s'.clock ≤ start + length) := by
    refine hrun.history (fun actions s' => s'.Consistent ∧ TokenBucket.Paced (1 / 10) limit.value start s'.clock
      (granted key actions) (s'.budget.buckets.lookup key) ∧ (granted key actions ≠ 0 → s'.clock ≤ start + length))
      ⟨h, TokenBucket.Sound.paced fun b hb => h.sound key b hb, fun hne => absurd rfl hne⟩ ?_
    rintro actions s₁ a s₂ - ⟨hconsistent, hp, hend⟩ ⟨hstep, hduring⟩
    refine ⟨hstep.consistent hconsistent, ?_⟩
    rw [granted_append]
    cases hstep with
    | consume => exact (add_zero (granted key actions)).symm ▸ ⟨hp, hend⟩
    | cancel => exact (add_zero (granted key actions)).symm ▸ ⟨hp, hend⟩
    | policy => exact (add_zero (granted key actions)).symm ▸ ⟨hp, hend⟩
    | @step now position hle =>
      obtain ⟨hstart, hstop, hlimit⟩ := hduring now position _ rfl
      exact ⟨hconsistent.paced hle hstart hlimit hp, fun _ => hstop⟩
  have := hpaced.2.1.le limit.positive.le (by norm_num) hlength hpaced.2.2
  linarith

/-! ## What a request is given -/

/-- What a request still waits for. -/
def outstanding (s : BandwidthSystem) (ticket : Nat) : ℚ :=
  ((s.budget.requests.filter fun request => decide (request.ticket = ticket)).map BandwidthRequest.remaining).sum

/-- What a request has been given and still waits for is at most what it asked for. -/
structure Accounted (actions : List BandwidthAction) (s : BandwidthSystem) : Prop where
  nonneg : ∀ ticket, 0 ≤ grantedTo ticket actions
  fresh : ∀ ticket, s.issued ≤ ticket → grantedTo ticket actions + s.outstanding ticket = 0
  asked : ∀ ticket repoId bytes fallbackLimit, .consume ticket repoId bytes fallbackLimit ∈ actions →
    ticket < s.issued ∧ grantedTo ticket actions + s.outstanding ticket ≤ bytes

theorem Consistent.outstanding_nonneg (h : s.Consistent) (ticket : Nat) : 0 ≤ s.outstanding ticket :=
  List.sum_nonneg fun x hx => by
    obtain ⟨request, hrequest, rfl⟩ := List.mem_map.1 hx
    exact (h.remaining request (List.mem_filter.1 hrequest).1).le

theorem outstanding_step (position : Nat) (h : s.Consistent) (hle : s.clock ≤ now) (ticket : Nat) :
    ({ s with budget := (s.budget.step now position).1, clock := now } : BandwidthSystem).outstanding ticket +
      (BandwidthAction.step now position (s.budget.step now position).2).grantedTo ticket = s.outstanding ticket := by
  have hperm := ((requests_step s now position).filter
    fun request => decide (request.ticket = ticket)).map BandwidthRequest.remaining
  have htickets := (h.served hle position).tickets ticket
  unfold outstanding
  rw [hperm.sum_eq]
  exact htickets

theorem outstanding_withdraw (h : s.Consistent) (ticket other : Nat) :
    ({ s with budget := s.budget.withdraw other } : BandwidthSystem).outstanding ticket ≤ s.outstanding ticket := by
  refine List.Sublist.sum_le_sum ((List.filter_sublist.filter _).map _) fun x hx => ?_
  obtain ⟨request, hrequest, rfl⟩ := List.mem_map.1 hx
  exact (h.remaining request (List.mem_filter.1 hrequest).1).le

theorem outstanding_enqueue (s : BandwidthSystem) (ticket other : Nat) (repoId : Str) (bytes : ℚ)
    (fallbackLimit : Option Rate) (issued : Nat) :
    (⟨s.budget.enqueue other repoId bytes fallbackLimit, s.clock, issued⟩ : BandwidthSystem).outstanding ticket =
      s.outstanding ticket + if other = ticket then bytes else 0 := by
  unfold outstanding Budget.enqueue
  by_cases h : other = ticket <;> simp [h]

theorem Accounted.step (hacc : Accounted actions s) (h : s.Consistent) (hstep : Step s a s') :
    Accounted (actions ++ [a]) s' := by
  have hnonneg := (hstep.consistent h).outstanding_nonneg
  have hsame : ∀ a : BandwidthAction, (∀ ticket, a.grantedTo ticket = 0) → ∀ ticket,
      grantedTo ticket (actions ++ [a]) = grantedTo ticket actions := by
    intro a ha ticket
    rw [grantedTo_append, ha ticket, add_zero]
  cases hstep with
  | @consume repoId bytes fallbackLimit hbytes =>
    have hsame := hsame (.consume s.issued repoId bytes fallbackLimit) fun _ => rfl
    refine ⟨fun ticket => hsame ticket ▸ hacc.nonneg ticket, fun ticket hticket => ?_,
      fun ticket repoId' bytes' fallbackLimit' hmem => ?_⟩
    · have hlt : s.issued < ticket := hticket
      rw [hsame, outstanding_enqueue, if_neg hlt.ne, add_zero]
      exact hacc.fresh ticket hlt.le
    · rw [hsame, outstanding_enqueue]
      rcases List.mem_append.1 hmem with hmem | hmem
      · obtain ⟨hlt, hle⟩ := hacc.asked ticket repoId' bytes' fallbackLimit' hmem
        rw [if_neg hlt.ne', add_zero]
        exact ⟨hlt.trans (Nat.lt_succ_self _), hle⟩
      · cases List.mem_singleton.1 hmem
        have := hacc.fresh s.issued le_rfl
        rw [if_pos rfl]
        exact ⟨Nat.lt_succ_self _, by linarith⟩
  | @cancel other =>
    have hsame := hsame (.cancel other) fun _ => rfl
    refine ⟨fun ticket => hsame ticket ▸ hacc.nonneg ticket, fun ticket hticket => ?_,
      fun ticket repoId bytes fallbackLimit hmem => ?_⟩
    · have := hacc.fresh ticket hticket
      have := hacc.nonneg ticket
      have := hnonneg ticket
      have := outstanding_withdraw h ticket other
      rw [hsame]
      linarith
    · have hmem := (List.mem_append.1 hmem).resolve_right fun hmem => by cases List.mem_singleton.1 hmem
      obtain ⟨hlt, hle⟩ := hacc.asked ticket repoId bytes fallbackLimit hmem
      have := outstanding_withdraw h ticket other
      rw [hsame]
      exact ⟨hlt, by linarith⟩
  | @policy config =>
    have hsame := hsame (.policy config) fun _ => rfl
    refine ⟨fun ticket => hsame ticket ▸ hacc.nonneg ticket, fun ticket hticket => hsame ticket ▸ hacc.fresh ticket hticket,
      fun ticket repoId bytes fallbackLimit hmem => ?_⟩
    have hmem := (List.mem_append.1 hmem).resolve_right fun hmem => by cases List.mem_singleton.1 hmem
    exact hsame ticket ▸ hacc.asked ticket repoId bytes fallbackLimit hmem
  | @step now position hle =>
    have hbalance := outstanding_step position h hle
    have hgrants : ∀ ticket, 0 ≤ (BandwidthAction.step now position (s.budget.step now position).2).grantedTo ticket :=
      fun ticket => List.sum_nonneg fun x hx => by
        obtain ⟨grant, hgrant, rfl⟩ := List.mem_map.1 hx
        exact (h.served hle position).nonneg grant (List.mem_filter.1 hgrant).1
    refine ⟨fun ticket => ?_, fun ticket hticket => ?_, fun ticket repoId bytes fallbackLimit hmem => ?_⟩
    · rw [grantedTo_append]
      exact add_nonneg (hacc.nonneg ticket) (hgrants ticket)
    · have := hacc.fresh ticket hticket
      have := hbalance ticket
      rw [grantedTo_append]
      linarith
    · have hmem := (List.mem_append.1 hmem).resolve_right fun hmem => by cases List.mem_singleton.1 hmem
      obtain ⟨hlt, hle⟩ := hacc.asked ticket repoId bytes fallbackLimit hmem
      have := hbalance ticket
      rw [grantedTo_append]
      exact ⟨hlt, by linarith⟩

/-- **The caps hold in every window of every run**, a new finite limit starts from nothing, and no request is given more
than it asked for. -/
theorem bandwidth_capped {pre : List BandwidthAction} (h₀ : s₀.Initial) (hpre : Run Step s₀ pre s) :
    (∀ key limit start length window s', 0 ≤ length → Run (During key limit start length) s window s' →
      granted key window ≤ limit.value * length + limit.value / 10) ∧
    (∀ now position, s.clock ≤ now → ∀ key limit, s.budget.Live key → s.budget.LimitIs position key limit →
      (s.budget.buckets.lookup key).bind TokenBucket.rate ≠ some limit.value →
      ∀ grant ∈ (s.budget.step now position).2, (key.all fun repoId => decide (repoId = grant.repoId)) = true →
        grant.bytes = 0) ∧
    ∀ ticket repoId bytes fallbackLimit, .consume ticket repoId bytes fallbackLimit ∈ pre → grantedTo ticket pre ≤ bytes := by
  obtain ⟨defaultLimit, h₀⟩ := h₀
  have hinitial : s₀.Consistent := by
    refine ⟨fun request hrequest => ?_, fun key b hb => ?_⟩
    · rw [h₀] at hrequest
      cases hrequest
    · rw [h₀] at hb
      cases hb
  have hconsistent : s.Consistent := hpre.invariant Consistent (fun _ _ _ h hstep => hstep.consistent h) hinitial
  refine ⟨fun key limit start length window s' hlength hrun => hconsistent.window hlength hrun, ?_, ?_⟩
  · intro now position hle key limit hlive hlimit hnew grant hgrant hkey
    have hnonneg := (hconsistent.served hle position).nonneg
    have hmem : grant.bytes ∈ ((s.budget.step now position).2.filter fun grant =>
        key.all fun repoId => decide (repoId = grant.repoId)).map Grant.bytes :=
      List.mem_map_of_mem (List.mem_filter.2 ⟨hgrant, hkey⟩)
    have hone := List.single_le_sum (fun x hx => by
      obtain ⟨other, hother, rfl⟩ := List.mem_map.1 hx
      exact hnonneg other (List.mem_filter.1 hother).1) _ hmem
    exact le_antisymm (hone.trans (hconsistent.nothing_through hle hlive hlimit hnew)) (hnonneg grant hgrant)
  · intro ticket repoId bytes fallbackLimit hmem
    have hacc : s.Consistent ∧ Accounted pre s := by
      refine hpre.history (fun actions s => s.Consistent ∧ Accounted actions s) ⟨hinitial, ?_⟩
        fun actions s₁ a s₂ _ hs₁ hstep => ⟨hstep.consistent hs₁.1, hs₁.2.step hs₁.1 hstep⟩
      refine ⟨fun _ => le_rfl, fun ticket _ => ?_, fun _ _ _ _ h => by cases h⟩
      unfold outstanding
      rw [h₀]
      exact add_zero 0
    have := hacc.1.outstanding_nonneg ticket
    have := (hacc.2.asked ticket repoId bytes fallbackLimit hmem).2
    linarith

def tenBytes : Rate := ⟨10, by norm_num⟩

def tenBytesConfig : BandwidthConfig := ⟨some tenBytes, [], []⟩

/-- A warm that waits for a hundred bytes. -/
def waiting : BandwidthSystem := ⟨⟨[⟨0, "r".toList, 100, none⟩], .empty, some tenBytesConfig, none⟩, 0, 1⟩

theorem bandwidth_capped_second : ∃ window s', Run (During none tenBytes 0 1) waiting window s' ∧ window.length = 2 ∧
    granted none window ≤ 10 * 1 + 10 / 10 := by
  have h₀ : (⟨.new none, 0, 0⟩ : BandwidthSystem).Initial := ⟨none, rfl⟩
  have hpre : Run Step ⟨.new none, 0, 0⟩ ([] ++ [.policy tenBytesConfig] ++ [.consume 0 "r".toList 100 none]) waiting :=
    .snoc (.snoc (.nil _) .policy) (.consume (by norm_num))
  have hduring : ∀ s : BandwidthSystem, ∀ now : ℚ, s.budget.config = some tenBytesConfig → s.clock ≤ now → 0 ≤ now → now ≤ 1 →
      During none tenBytes 0 1 s (.step now 0 (s.budget.step now 0).2)
        { s with budget := (s.budget.step now 0).1, clock := now } := by
    intro s now hconfig hle hstart hstop
    refine ⟨.step hle, fun now' position grants h => ?_⟩
    cases h
    refine ⟨hstart, by linarith, fun _ => ?_⟩
    show s.budget.globalRate 0 = some tenBytes
    rw [Budget.globalRate, hconfig]
    rfl
  have hrun := Run.snoc (Run.snoc (.nil waiting) (hduring waiting 0 rfl le_rfl le_rfl zero_le_one))
    (hduring _ 1 rfl zero_le_one zero_le_one le_rfl)
  exact ⟨_, _, hrun, rfl, (bandwidth_capped h₀ hpre).1 none tenBytes 0 1 _ _ zero_le_one hrun⟩

end
end BandwidthSystem
end RepoWatch
