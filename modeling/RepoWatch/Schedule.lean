import RepoWatch.Bandwidth
import RepoWatch.Lib.Loop
/-!
# Schedule — the windows of the week

`validateSchedule` reads a schedule as the configuration file gives it and collects the minutes of the week that are taken;
`scheduledLimit` compares distances to the start of a window.  Both speak of the same minutes, so a minute has one limit
whatever the order of the windows (`schedule_unambiguous`).
-/
namespace RepoWatch

open Lib

/-- A value of the configuration file. -/
inductive Value where
  | null
  | bool (b : Bool)
  | int (n : Int)
  | float (q : ℚ)
  | nonFinite
  | str (s : Str)
  | list (values : List Value)
  | dict (entries : List (Value × Value))

namespace Value

def isText (value : Value) (s : Str) : Bool :=
  match value with
  | .str text => decide (text = s)
  | _ => false

/-- `dict.get`. -/
def get? (entries : List (Value × Value)) (key : Str) : Option Value :=
  (entries.find? fun entry => entry.1.isText key).map Prod.snd

end Value

/-- `math.isfinite` does not overflow on an integer. -/
def isFloatable (n : Int) : Bool := decide (n.natAbs < 2 ^ 1024 - 2 ^ 970)

/-- `validate_limit`. -/
def validateLimit (value : Value) : Except Str (Option Rate) :=
  let error := .error "bandwidth limit must be a positive finite number or null".toList
  match value with
  | .null => .ok none
  | .int n => if h : isFloatable n = true ∧ (0 : ℚ) < n then .ok (some ⟨n, h.2⟩) else error
  | .float q => if h : 0 < q then .ok (some ⟨q, h⟩) else error
  | _ => error

def isClock : Str → Bool
  | [h, h', ':', m, m'] => h.isDigit && h'.isDigit && m.isDigit && m'.isDigit
  | _ => false

/-- The text of a time for which `minute` does not raise. -/
def checkMinute (value : Value) (atEnd : Bool) : Except Str {text : Str // (minute text atEnd).isSome} :=
  match value with
  | .str text =>
    if h : (minute text atEnd).isSome then .ok ⟨text, h⟩
    else if isClock text then .error "invalid schedule time".toList
    else .error "schedule times must use HH:MM".toList
  | _ => .error "schedule times must use HH:MM".toList

def Day.name : Day → Str
  | .mon => "mon".toList
  | .tue => "tue".toList
  | .wed => "wed".toList
  | .thu => "thu".toList
  | .fri => "fri".toList
  | .sat => "sat".toList
  | .sun => "sun".toList

def dayOf (value : Value) : Option Day := DAYS.find? fun day => value.isText day.name

/-- The days of a window; without the field they are all of them. -/
def checkDays (days : Option Value) : Except Str (List Day) :=
  let error := .error "schedule days must be unique mon/tue/wed/thu/fri/sat/sun values".toList
  match days with
  | none => .ok DAYS
  | some (.list values) =>
    match values.mapM dayOf with
    | some days => if days ≠ [] ∧ days.Nodup then .ok days else error
    | none => error
  | some _ => error

namespace ScheduleWindow
variable (window : ScheduleWindow)

def startMinute : Nat := (minute window.start false).get window.start_ok

def stopMinute : Nat := (minute window.stop true).get window.stop_ok

/-- `(end - start) % 1440 or 1440`. -/
def duration : Nat :=
  let minutes := ((window.stopMinute - window.startMinute : Int) % 1440).toNat
  if minutes = 0 then 1440 else minutes

/-- The minutes of the week that a window takes from a day on. -/
def slots (day : Day) : List Nat :=
  (List.range window.duration).map fun offset => (DAYS.idxOf day * 1440 + window.startMinute + offset) % 10080

/-- The slots of each day of a window. -/
def taken : List (List Nat) := window.days.map window.slots

end ScheduleWindow

/-- `if not ok: raise ValueError(message)`. -/
def require (ok : Bool) (message : String) : Except Str Unit := if ok then .ok () else .error message.toList

@[simp] theorem require_eq_ok {ok : Bool} {message : String} {u : Unit} : require ok message = .ok u ↔ ok = true := by
  cases ok <;> simp [require]

def required (entries : List (Value × Value)) (key : String) : Except Str Value :=
  match Value.get? entries key.toList with
  | some value => .ok value
  | none => .error "schedule window requires start, end and limit".toList

@[simp] theorem required_eq_ok {entries : List (Value × Value)} {key : String} {value : Value} :
    required entries key = .ok value ↔ Value.get? entries key.toList = some value := by
  unfold required
  cases Value.get? entries key.toList <;> simp

def onlyFields (entries : List (Value × Value)) : Bool :=
  entries.all fun entry => ["days", "start", "end", "limit"].any fun key => entry.1.isText key.toList

/-- What `validate_schedule` checks of a window by itself. -/
def checkWindow : Value → Except Str ScheduleWindow
  | .dict entries => do
    require (onlyFields entries) "schedule window accepts only days/start/end/limit"
    let start ← required entries "start"
    let stop ← required entries "end"
    let limit ← required entries "limit"
    let limit ← validateLimit limit
    let days ← checkDays (Value.get? entries "days".toList)
    let start ← checkMinute start false
    let stop ← checkMinute stop true
    let window : ScheduleWindow := ⟨days, start.val, stop.val, limit, start.property, stop.property⟩
    require (decide (window.startMinute ≠ window.stopMinute)) "schedule start and end must differ; use 00:00–24:00 for a full day"
    return window
  | _ => .error "schedule window accepts only days/start/end/limit".toList

/-- The loop over the slots of a window's days. -/
def occupy : List (List Nat) → List Nat → Except Str (List Nat)
  | [], occupied => .ok occupied
  | slots :: rest, occupied =>
    if slots.any occupied.contains then .error "bandwidth schedule windows overlap".toList
    else occupy rest (occupied ++ slots)

/-- The loop over the windows. -/
def checkWindows : List Value → List Nat → Except Str (List ScheduleWindow)
  | [], _ => .ok []
  | value :: values, occupied => do
    let window ← checkWindow value
    let occupied ← occupy window.taken occupied
    return window :: (← checkWindows values occupied)

/-- `validate_schedule`: the windows it lets pass; `zoneInfo` are the zones of the system's timezone data. -/
def validateSchedule (zoneInfo : Str → Bool) (schedule zone : Value) : Except Str (List ScheduleWindow) :=
  match zone with
  | .str name =>
    if name ≠ "UTC".toList ∧ zoneInfo name = false then
      .error "unknown bandwidth timezone; system timezone data is required".toList
    else match schedule with
    | .list values =>
      if 64 < values.length then .error "bandwidth schedule must be a list of at most 64 windows".toList
      else checkWindows values []
    | _ => .error "bandwidth schedule must be a list of at most 64 windows".toList
  | _ => .error "unknown bandwidth timezone; system timezone data is required".toList

/-! ## What a window covers -/

namespace ScheduleWindow
variable (window : ScheduleWindow)

/-- The minutes from the start up to the end of a window, past midnight when the end is not after the start. -/
def length : Nat :=
  if window.startMinute < window.stopMinute then window.stopMinute - window.startMinute
  else 1440 - window.startMinute + window.stopMinute

/-- **A minute of the week lies in a window**: it comes after the start of a listed day, before as many minutes as the
window is long. -/
def Lies (position : Nat) : Prop :=
  ∃ day ∈ window.days, ∃ offset < window.length,
    position = (DAYS.idxOf day * 1440 + window.startMinute + offset) % 10080

end ScheduleWindow

theorem minute_le {value : Str} {atEnd : Bool} {m : Nat} (h : minute value atEnd = some m) :
    m ≤ 1440 ∧ (atEnd = false → m < 1440) := by
  unfold minute at h
  split at h
  · rename_i hend
    cases h
    simp only [Bool.and_eq_true] at hend
    exact ⟨le_rfl, fun h => by simp [h] at hend⟩
  · split at h
    · split at h
      · cases h
      · dsimp only at h
        split at h
        · cases h
        · rename_i hbound
          simp only [Bool.or_eq_true, decide_eq_true_eq] at hbound
          cases h
          omega
    · cases h

section Window
variable {window : ScheduleWindow} {position : Nat}

theorem startMinute_lt (window : ScheduleWindow) : window.startMinute < 1440 :=
  (minute_le (Option.some_get window.start_ok).symm).2 rfl

theorem stopMinute_le (window : ScheduleWindow) : window.stopMinute ≤ 1440 :=
  (minute_le (Option.some_get window.stop_ok).symm).1

theorem duration_eq_length (window : ScheduleWindow) : window.duration = window.length := by
  have hstart := startMinute_lt window
  have hstop := stopMinute_le window
  unfold ScheduleWindow.duration ScheduleWindow.length
  dsimp only
  split <;> split <;> omega

theorem duration_le (window : ScheduleWindow) : window.duration ≤ 1440 := by
  unfold ScheduleWindow.duration
  dsimp only
  split <;> omega

/-- **A distance on the circle** is below a length exactly when it is one of the offsets. -/
theorem emod_sub_lt_iff {m p s d : Nat} (hm : 0 < m) (hp : p < m) (hd : d ≤ m) :
    ((p - s : Int) % m < d) ↔ ∃ offset < d, p = (s + offset) % m := by
  constructor
  · intro h
    have hnonneg : 0 ≤ (p - s : Int) % m := Int.emod_nonneg _ (by omega)
    refine ⟨((p - s : Int) % m).toNat, by omega, ?_⟩
    have hint : ((s + ((p - s : Int) % m).toNat : Nat) : Int) % m = p := by
      rw [Int.natCast_add, Int.toNat_of_nonneg hnonneg, Int.add_emod_emod, add_sub_cancel]
      exact Int.emod_eq_of_lt (by omega) (by omega)
    omega
  · rintro ⟨offset, hoffset, rfl⟩
    have hint : (((s + offset) % m : Nat) - s : Int) % m = offset := by
      rw [Int.natCast_mod, Int.emod_sub_emod, Int.natCast_add, add_sub_cancel_left]
      exact Int.emod_eq_of_lt (by omega) (by omega)
    omega

theorem mem_slots {day : Day} (hp : position < 10080) : position ∈ window.slots day ↔
    (position - (DAYS.idxOf day * 1440 + window.startMinute : Nat) : Int) % 10080 < window.duration := by
  have hduration := duration_le window
  have hiff := emod_sub_lt_iff (m := 10080) (p := position) (s := DAYS.idxOf day * 1440 + window.startMinute)
    (d := window.duration) (by omega) hp (by omega)
  rw [show ((10080 : Nat) : Int) = 10080 from rfl] at hiff
  rw [hiff, ScheduleWindow.slots, List.mem_map]
  simp only [List.mem_range, eq_comm]

theorem mem_taken (window : ScheduleWindow) (position : Nat) :
    (∃ slots ∈ window.taken, position ∈ slots) ↔ window.Lies position := by
  unfold ScheduleWindow.taken ScheduleWindow.Lies ScheduleWindow.slots
  simp only [List.mem_map, exists_exists_and_eq_and, List.mem_range, duration_eq_length]
  refine exists_congr fun day => and_congr_right fun _ => exists_congr fun offset => and_congr_right fun _ => eq_comm

/-- **The evaluation of a window** agrees with its slots. -/
theorem covers_iff (window : ScheduleWindow) (hp : position < 10080) : window.covers position = true ↔ window.Lies position := by
  rw [← mem_taken, ScheduleWindow.covers, List.any_eq_true]
  simp only [ScheduleWindow.taken, List.mem_map, exists_exists_and_eq_and]
  refine exists_congr fun day => and_congr_right fun _ => ?_
  have hduration : (window.duration : Int) =
      if (window.stopMinute - window.startMinute : Int) % 1440 = 0 then 1440
      else (window.stopMinute - window.startMinute : Int) % 1440 := by
    unfold ScheduleWindow.duration
    dsimp only
    split <;> split <;> omega
  rw [mem_slots hp, decide_eq_true_iff, hduration]
  rfl

end Window

/-! ## What the validation lets pass -/

theorem occupy_eq_ok : ∀ {lists : List (List Nat)} {occupied occupied' : List Nat}, occupy lists occupied = .ok occupied' ↔
    occupied' = occupied ++ lists.flatten ∧ lists.Pairwise List.Disjoint ∧ ∀ slots ∈ lists, slots.Disjoint occupied
  | [], occupied, occupied' => by
    simp [occupy, eq_comm]
  | slots :: rest, occupied, occupied' => by
    unfold occupy
    have hany : slots.any occupied.contains = true ↔ ¬ slots.Disjoint occupied := by
      simp [List.Disjoint]
    split
    · rename_i h
      refine ⟨fun h => (nomatch h), fun hok => ?_⟩
      exact absurd (hok.2.2 slots List.mem_cons_self) (hany.1 h)
    · rename_i h
      have hdisjoint : slots.Disjoint occupied := not_not.1 (mt hany.2 h)
      rw [occupy_eq_ok, List.pairwise_cons, List.flatten_cons, List.append_assoc]
      constructor
      · rintro ⟨rfl, hpairwise, hrest⟩
        refine ⟨rfl, ⟨fun other hother => ?_, hpairwise⟩, fun other hother => ?_⟩
        · exact (List.disjoint_append_right.1 (hrest other hother)).2.symm
        · rcases List.mem_cons.1 hother with rfl | hother
          · exact hdisjoint
          · exact (List.disjoint_append_right.1 (hrest other hother)).1
      · rintro ⟨rfl, ⟨hfirst, hpairwise⟩, hrest⟩
        refine ⟨rfl, hpairwise, fun other hother => ?_⟩
        exact List.disjoint_append_right.2 ⟨hrest other (List.mem_cons_of_mem _ hother), (hfirst other hother).symm⟩

/-- **The windows let pass** are those that pass by themselves and take no minute twice. -/
theorem checkWindows_eq_ok : ∀ {values : List Value} {windows : List ScheduleWindow} {occupied : List Nat},
    checkWindows values occupied = .ok windows ↔
      List.Forall₂ (fun value window => checkWindow value = .ok window) values windows ∧
      (windows.flatMap ScheduleWindow.taken).Pairwise List.Disjoint ∧
      ∀ slots ∈ windows.flatMap ScheduleWindow.taken, slots.Disjoint occupied
  | [], windows, occupied => by
    rw [checkWindows, Except.ok.injEq, List.forall₂_nil_left_iff]
    refine ⟨?_, fun h => h.1.symm⟩
    rintro rfl
    exact ⟨rfl, .nil, fun _ h => (nomatch h)⟩
  | value :: values, windows, occupied => by
    simp only [checkWindows, Lib.bind_eq_ok, occupy_eq_ok, checkWindows_eq_ok, pure, Except.pure, Except.ok.injEq]
    constructor
    · rintro ⟨window, hwindow, _, ⟨rfl, hown, hfree⟩, windows, ⟨hall, hpairwise, hrest⟩, rfl⟩
      refine ⟨.cons hwindow hall, ?_, fun slots hslots => ?_⟩
      · rw [List.flatMap_cons, List.pairwise_append]
        refine ⟨hown, hpairwise, fun slots hslots slots' hslots' => ?_⟩
        have hflat := (List.disjoint_append_right.1 (hrest slots' hslots')).2
        exact fun p hp hp' => hflat hp' (List.mem_flatten_of_mem hslots hp)
      · rcases List.mem_append.1 hslots with hslots | hslots
        · exact hfree slots hslots
        · exact (List.disjoint_append_right.1 (hrest slots hslots)).1
    · rintro ⟨hall, hpairwise, hfree⟩
      cases hall with
      | @cons _ window _ windows hwindow hall =>
        rw [List.flatMap_cons] at hpairwise hfree
        obtain ⟨hown, hpairwise, hcross⟩ := List.pairwise_append.1 hpairwise
        refine ⟨window, hwindow, _, ⟨rfl, hown, fun slots h => hfree slots (List.mem_append_left _ h)⟩, windows,
          ⟨hall, hpairwise, ?_⟩, rfl⟩
        intro slots hslots
        refine List.disjoint_append_right.2 ⟨hfree slots (List.mem_append_right _ hslots), fun p hp hp' => ?_⟩
        obtain ⟨slots', hslots', hp'⟩ := List.mem_flatten.1 hp'
        exact hcross slots' hslots' slots hslots hp' hp

theorem checkWindows_of_validateSchedule {zoneInfo : Str → Bool} {schedule zone : Value} {windows : List ScheduleWindow}
    (h : validateSchedule zoneInfo schedule zone = .ok windows) :
    ∃ values, schedule = .list values ∧ checkWindows values [] = .ok windows ∧
      ∀ values', values'.length = values.length → validateSchedule zoneInfo (.list values') zone = checkWindows values' [] := by
  unfold validateSchedule at h
  split at h
  · split at h
    · cases h
    · rename_i name hzone
      split at h
      · split at h
        · cases h
        · rename_i values hlength
          refine ⟨values, rfl, h, fun values' heq => ?_⟩
          simp only [validateSchedule, hzone, if_false, heq, hlength]
      · cases h
  · cases h

/-- **A minute of the week is taken once.** -/
theorem pairwise_not_lies {values : List Value} {windows : List ScheduleWindow} (h : checkWindows values [] = .ok windows)
    (position : Nat) : windows.Pairwise fun window window' => ¬ (window.Lies position ∧ window'.Lies position) := by
  refine (List.pairwise_flatMap.1 (checkWindows_eq_ok.1 h).2.1).2.imp ?_
  rintro window window' hdisjoint ⟨hlies, hlies'⟩
  obtain ⟨slots, hslots, hp⟩ := (mem_taken window position).2 hlies
  obtain ⟨slots', hslots', hp'⟩ := (mem_taken window' position).2 hlies'
  exact hdisjoint slots hslots slots' hslots' hp hp'

/-! ## The limit of a minute -/

section Limit
variable {config : BandwidthConfig} {windows : List ScheduleWindow} {position : Nat}

theorem scheduledLimit_of_lies (hp : position < 10080)
    (hpairwise : config.schedule.Pairwise fun window window' => ¬ (window.Lies position ∧ window'.Lies position))
    {window : ScheduleWindow} (hmem : window ∈ config.schedule) (hlies : window.Lies position) :
    scheduledLimit config position = window.limit := by
  unfold scheduledLimit
  cases hfind : config.schedule.find? fun window => window.covers position with
  | none => exact absurd ((covers_iff window hp).2 hlies) (by simpa using List.find?_eq_none.1 hfind window hmem)
  | some found =>
    have hfound : found.Lies position := (covers_iff found hp).1 (by simpa using List.find?_some hfind)
    have : Std.Symm fun a b : ScheduleWindow => ¬ (a.Lies position ∧ b.Lies position) := ⟨fun a b h hba => h hba.symm⟩
    by_contra hne
    have hdiff : found ≠ window := fun heq => hne (by rw [heq])
    exact hpairwise.forall (List.mem_of_find?_eq_some hfind) hmem hdiff ⟨hfound, hlies⟩

theorem scheduledLimit_of_not_lies (hp : position < 10080) (h : ∀ window ∈ config.schedule, ¬ window.Lies position) :
    scheduledLimit config position = config.limit := by
  unfold scheduledLimit
  have hnone : config.schedule.find? (fun window => window.covers position) = none :=
    List.find?_eq_none.2 fun window hmem => by
      rw [covers_iff window hp]
      exact h window hmem
  rw [hnone]

end Limit

/-! ## Schedules in another order -/

/-- Two windows of the file that differ in the order of their days. -/
inductive DaysPermuted : Value → Value → Prop
  | refl (value : Value) : DaysPermuted value value
  | days {before after : List (Value × Value)} {days days' : List Value} (h : days.Perm days') :
    DaysPermuted (.dict (before ++ (.str "days".toList, .list days) :: after))
      (.dict (before ++ (.str "days".toList, .list days') :: after))

/-- Two schedules of the file that differ in the order of the windows and of their days. -/
def Permuted (values values' : List Value) : Prop := ∃ mid, values.Perm mid ∧ List.Forall₂ DaysPermuted mid values'

/-- Two windows that differ in the order of their days. -/
def ScheduleWindow.SameMinutes (window window' : ScheduleWindow) : Prop :=
  ∃ days', window.days.Perm days' ∧ window' = { window with days := days' }

section SameMinutes
variable {window window' : ScheduleWindow}

theorem ScheduleWindow.SameMinutes.taken (h : window.SameMinutes window') : window.taken.Perm window'.taken := by
  obtain ⟨days', hperm, rfl⟩ := h
  exact hperm.map _

theorem ScheduleWindow.SameMinutes.lies_iff (h : window.SameMinutes window') (position : Nat) :
    window'.Lies position ↔ window.Lies position := by
  obtain ⟨days', hperm, rfl⟩ := h
  exact exists_congr fun day => and_congr_left fun _ => hperm.symm.mem_iff

theorem ScheduleWindow.SameMinutes.limit (h : window.SameMinutes window') : window'.limit = window.limit := by
  obtain ⟨days', -, rfl⟩ := h
  rfl

end SameMinutes

theorem checkDays_of_perm {values values' : List Value} {days : List Day} (hperm : values.Perm values')
    (h : checkDays (some (.list values)) = .ok days) :
    ∃ days', checkDays (some (.list values')) = .ok days' ∧ days.Perm days' := by
  dsimp only [checkDays] at h
  split at h
  · rename_i ds hds
    split at h
    · rename_i hok
      cases h
      obtain ⟨hall, rfl⟩ := Lib.mapM_eq_some_iff.1 hds
      have hdays : values'.mapM dayOf = some (values'.filterMap dayOf) :=
        Lib.mapM_eq_some_iff.2 ⟨fun x hx => hall x (hperm.mem_iff.2 hx), rfl⟩
      have hfilter : (values.filterMap dayOf).Perm (values'.filterMap dayOf) := hperm.filterMap dayOf
      refine ⟨_, ?_, hfilter⟩
      have hok' : values'.filterMap dayOf ≠ [] ∧ (values'.filterMap dayOf).Nodup :=
        ⟨fun hnil => hok.1 (List.perm_nil.1 (hnil ▸ hfilter)), hfilter.nodup_iff.1 hok.2⟩
      simp only [checkDays, hdays, if_pos hok']
    · cases h
  · cases h

/-- What `checkWindow` lets pass, field by field. -/
theorem checkWindow_eq_ok {entries : List (Value × Value)} {window : ScheduleWindow} : checkWindow (.dict entries) = .ok window ↔
    onlyFields entries = true ∧
    ∃ start stop limit, Value.get? entries "start".toList = some start ∧ Value.get? entries "end".toList = some stop ∧
      Value.get? entries "limit".toList = some limit ∧ validateLimit limit = .ok window.limit ∧
      checkDays (Value.get? entries "days".toList) = .ok window.days ∧
      checkMinute start false = .ok ⟨window.start, window.start_ok⟩ ∧ checkMinute stop true = .ok ⟨window.stop, window.stop_ok⟩ ∧
      window.startMinute ≠ window.stopMinute := by
  simp only [checkWindow, Lib.bind_eq_ok, require_eq_ok, required_eq_ok]
  constructor
  · rintro ⟨_, hfields, start, hstart, stop, hstop, limit, hlimit, _, hrate, _, hdays, s, hs, t, ht, _, hne, hwindow⟩
    cases hwindow
    exact ⟨hfields, start, stop, limit, hstart, hstop, hlimit, hrate, hdays, hs, ht, of_decide_eq_true hne⟩
  · rintro ⟨hfields, start, stop, limit, hstart, hstop, hlimit, hrate, hdays, hs, ht, hne⟩
    exact ⟨(), hfields, start, hstart, stop, hstop, limit, hlimit, _, hrate, _, hdays, _, hs, _, ht, (), decide_eq_true hne, rfl⟩

theorem get?_append (before after : List (Value × Value)) (entry : Value × Value) (key : Str) :
    Value.get? (before ++ entry :: after) key =
      (Value.get? before key).or (if entry.1.isText key then some entry.2 else Value.get? after key) := by
  simp only [Value.get?, List.find?_append, List.find?_cons, Option.map_or]
  cases entry.1.isText key <;> rfl

theorem checkWindow_of_daysPermuted {window : ScheduleWindow} {value value' : Value} (hperm : DaysPermuted value value')
    (h : checkWindow value = .ok window) : ∃ window', checkWindow value' = .ok window' ∧ window.SameMinutes window' := by
  cases hperm with
  | refl => exact ⟨window, h, window.days, .refl _, rfl⟩
  | @days before after values values' hperm =>
    obtain ⟨hfields, start, stop, limit, hstart, hstop, hlimit, hrate, hdays, hs, ht, hne⟩ := checkWindow_eq_ok.1 h
    have hget : ∀ key : Str, key ≠ "days".toList →
        Value.get? (before ++ (.str "days".toList, .list values') :: after) key =
          Value.get? (before ++ (.str "days".toList, .list values) :: after) key := fun key hkey => by
      have hother : (Value.str "days".toList).isText key = false := decide_eq_false (Ne.symm hkey)
      have hne : ¬ (Value.str "days".toList).isText key = true := ne_true_of_eq_false hother
      rw [get?_append, get?_append, if_neg hne, if_neg hne]
    have hfields' : onlyFields (before ++ (.str "days".toList, .list values') :: after) = true := by
      rwa [onlyFields, List.all_append, List.all_cons] at hfields ⊢
    have hdays' : ∃ days',
      checkDays (Value.get? (before ++ (.str "days".toList, .list values') :: after) "days".toList) = .ok days' ∧
        window.days.Perm days' := by
      have hkey : (Value.str "days".toList).isText "days".toList = true := by simp [Value.isText]
      rw [get?_append, if_pos hkey] at hdays ⊢
      cases hbefore : Value.get? before "days".toList with
      | none =>
        rw [hbefore] at hdays
        exact checkDays_of_perm hperm hdays
      | some v =>
        rw [hbefore] at hdays
        exact ⟨window.days, hdays, .refl _⟩
    obtain ⟨days', hdays', hpermuted⟩ := hdays'
    refine ⟨{ window with days := days' }, ?_, days', hpermuted, rfl⟩
    refine checkWindow_eq_ok.2 ⟨hfields', start, stop, limit, ?_, ?_, ?_, hrate, hdays', hs, ht, hne⟩
    · rw [hget _ (by decide), hstart]
    · rw [hget _ (by decide), hstop]
    · rw [hget _ (by decide), hlimit]

theorem checkWindows_of_daysPermuted {values values' : List Value} (h : List.Forall₂ DaysPermuted values values') :
    ∀ {windows : List ScheduleWindow}, List.Forall₂ (fun value window => checkWindow value = .ok window) values windows →
      ∃ windows', List.Forall₂ (fun value window => checkWindow value = .ok window) values' windows' ∧
        List.Forall₂ ScheduleWindow.SameMinutes windows windows' := by
  induction h with
  | nil =>
    intro windows hwindows
    cases hwindows
    exact ⟨[], .nil, .nil⟩
  | cons hvalue _ ih =>
    intro windows hwindows
    cases hwindows with
    | cons hwindow hwindows =>
      obtain ⟨window', hwindow', hsame⟩ := checkWindow_of_daysPermuted hvalue hwindow
      obtain ⟨windows', hall, hforall⟩ := ih hwindows
      exact ⟨window' :: windows', .cons hwindow' hall, .cons hsame hforall⟩

theorem taken_of_sameMinutes {windows windows' : List ScheduleWindow}
    (h : List.Forall₂ ScheduleWindow.SameMinutes windows windows') :
    (windows.flatMap ScheduleWindow.taken).Perm (windows'.flatMap ScheduleWindow.taken) := by
  induction h with
  | nil => exact .refl _
  | cons hsame _ ih => exact hsame.taken.append ih

/-- **A schedule in another order** passes too, with the same windows in that order. -/
theorem checkWindows_of_permuted {values values' : List Value} {windows : List ScheduleWindow} (hperm : Permuted values values')
    (h : checkWindows values [] = .ok windows) :
    ∃ windows' mid, checkWindows values' [] = .ok windows' ∧ windows.Perm mid ∧
      List.Forall₂ ScheduleWindow.SameMinutes mid windows' := by
  obtain ⟨middle, hvalues, hdays⟩ := hperm
  obtain ⟨hall, hpairwise, -⟩ := checkWindows_eq_ok.1 h
  obtain ⟨mid, hmid, hwindows⟩ := List.perm_comp_forall₂ hvalues.symm hall
  obtain ⟨windows', hall', hsame⟩ := checkWindows_of_daysPermuted hdays hmid
  have htaken : (windows.flatMap ScheduleWindow.taken).Perm (windows'.flatMap ScheduleWindow.taken) :=
    (hwindows.symm.flatMap_right _).trans (taken_of_sameMinutes hsame)
  have hpairwise' := (htaken.pairwise_iff List.Disjoint.symm).1 hpairwise
  exact ⟨windows', mid, checkWindows_eq_ok.2 ⟨hall', hpairwise', fun slots _ => List.disjoint_nil_right slots⟩,
    hwindows.symm, hsame⟩

theorem exists_mem_of_forall₂ {α β : Type} {R : α → β → Prop} {l : List α} {l' : List β} (h : List.Forall₂ R l l') {a : α}
    (ha : a ∈ l) : ∃ b ∈ l', R a b := by
  induction h with
  | nil => cases ha
  | @cons x y l l' hxy _ ih =>
    rcases List.mem_cons.1 ha with rfl | ha
    · exact ⟨y, List.mem_cons_self, hxy⟩
    · obtain ⟨b, hb, hab⟩ := ih ha
      exact ⟨b, List.mem_cons_of_mem y hb, hab⟩

theorem exists_lies_of_permuted {windows mid windows' : List ScheduleWindow} {position : Nat} (hperm : windows.Perm mid)
    (hsame : List.Forall₂ ScheduleWindow.SameMinutes mid windows') {window : ScheduleWindow} (hmem : window ∈ windows)
    (hlies : window.Lies position) : ∃ window' ∈ windows', window'.Lies position ∧ window'.limit = window.limit := by
  obtain ⟨window', hmem', hwindow⟩ := exists_mem_of_forall₂ hsame (hperm.mem_iff.1 hmem)
  exact ⟨window', hmem', (hwindow.lies_iff position).2 hlies, hwindow.limit⟩

/-- The minute of the week of a local time. -/
def weekMinute (weekday : Fin 7) (hour : Fin 24) (minute : Fin 60) : Nat := weekday * 1440 + hour * 60 + minute

theorem weekMinute_lt (weekday : Fin 7) (hour : Fin 24) (minute : Fin 60) : weekMinute weekday hour minute < 10080 := by
  unfold weekMinute
  omega

/-- **A minute has one limit.** -/
theorem schedule_unambiguous {zoneInfo : Str → Bool} {schedule zone : Value} {windows : List ScheduleWindow}
    (h : validateSchedule zoneInfo schedule zone = .ok windows) (config : BandwidthConfig) (weekday : Fin 7) (hour : Fin 24)
    (minute : Fin 60) :
    (windows.Pairwise fun window window' =>
      ¬ (window.Lies (weekMinute weekday hour minute) ∧ window'.Lies (weekMinute weekday hour minute))) ∧
    (∀ window : ScheduleWindow, window.covers (weekMinute weekday hour minute) = true ↔
      window.Lies (weekMinute weekday hour minute)) ∧
    (∀ window ∈ windows, window.Lies (weekMinute weekday hour minute) →
      scheduledLimit { config with schedule := windows } (weekMinute weekday hour minute) = window.limit) ∧
    ((∀ window ∈ windows, ¬ window.Lies (weekMinute weekday hour minute)) →
      scheduledLimit { config with schedule := windows } (weekMinute weekday hour minute) = config.limit) ∧
    ∀ values values', schedule = .list values → Permuted values values' →
      ∃ windows', validateSchedule zoneInfo (.list values') zone = .ok windows' ∧
        scheduledLimit { config with schedule := windows' } (weekMinute weekday hour minute) =
          scheduledLimit { config with schedule := windows } (weekMinute weekday hour minute) := by
  have hp := weekMinute_lt weekday hour minute
  generalize weekMinute weekday hour minute = position at hp ⊢
  obtain ⟨values, rfl, hcheck, hother⟩ := checkWindows_of_validateSchedule h
  have honce := pairwise_not_lies hcheck position
  refine ⟨honce, fun window => covers_iff window hp, fun window hmem => scheduledLimit_of_lies hp honce hmem,
    fun hnone => scheduledLimit_of_not_lies hp hnone, ?_⟩
  rintro _ values' ⟨⟩ hperm
  obtain ⟨windows', mid, hcheck', hmid, hsame⟩ := checkWindows_of_permuted hperm hcheck
  have hlength : values'.length = values.length := by
    obtain ⟨middle, hvalues, hdays⟩ := hperm
    rw [← hdays.length_eq, hvalues.length_eq]
  refine ⟨windows', (hother values' hlength).trans hcheck', ?_⟩
  have honce' := pairwise_not_lies hcheck' position
  by_cases hlies : ∃ window ∈ windows, window.Lies position
  · obtain ⟨window, hmem, hlies⟩ := hlies
    obtain ⟨window', hmem', hlies', hlimit⟩ := exists_lies_of_permuted hmid hsame hmem hlies
    exact ((scheduledLimit_of_lies hp honce' hmem' hlies').trans hlimit).trans (scheduledLimit_of_lies hp honce hmem hlies).symm
  · have hnone : ∀ window ∈ windows, ¬ window.Lies position := fun window hmem h => hlies ⟨window, hmem, h⟩
    have hnone' : ∀ window' ∈ windows', ¬ window'.Lies position := fun window' hmem' h => by
      obtain ⟨window, hmem, hwindow⟩ := exists_mem_of_forall₂ hsame.flip hmem'
      exact hnone window (hmid.mem_iff.2 hmem) ((ScheduleWindow.SameMinutes.lies_iff hwindow position).1 h)
    have hlimit : scheduledLimit { config with schedule := windows } position = config.limit :=
      scheduledLimit_of_not_lies hp hnone
    have hlimit' : scheduledLimit { config with schedule := windows' } position = config.limit :=
      scheduledLimit_of_not_lies hp hnone'
    rw [hlimit, hlimit']

/-- No limit from Sunday's last minute to Monday's first, and then 50 bytes a second for two minutes. -/
def overnight : List Value :=
  [.dict [(.str "start".toList, .str "23:59".toList), (.str "end".toList, .str "00:01".toList),
    (.str "limit".toList, .null), (.str "days".toList, .list [.str "sun".toList])],
  .dict [(.str "start".toList, .str "00:01".toList), (.str "end".toList, .str "00:03".toList),
    (.str "limit".toList, .float 50), (.str "days".toList, .list [.str "mon".toList])]]

def overnightWindow : ScheduleWindow := ⟨[.sun], "23:59".toList, "00:01".toList, none, rfl, rfl⟩

def mondayWindow : ScheduleWindow := ⟨[.mon], "00:01".toList, "00:03".toList, some ⟨50, by norm_num⟩, rfl, rfl⟩

def overnightConfig : BandwidthConfig := ⟨some ⟨100, by norm_num⟩, [overnightWindow, mondayWindow], []⟩

/-- Sunday's window reaches Monday's first minute, where Monday's begins; what is in neither has the general limit. -/
theorem schedule_unambiguous_overnight :
    validateSchedule (fun _ => false) (.list overnight) (.str "UTC".toList) = .ok [overnightWindow, mondayWindow] ∧
    scheduledLimit overnightConfig (weekMinute 0 0 0) = none ∧
    scheduledLimit overnightConfig (weekMinute 0 0 1) = mondayWindow.limit ∧
    scheduledLimit overnightConfig (weekMinute 0 0 3) = overnightConfig.limit ∧
    ¬ (overnightWindow.Lies (weekMinute 0 0 0) ∧ mondayWindow.Lies (weekMinute 0 0 0)) := by
  have h : validateSchedule (fun _ => false) (.list overnight) (.str "UTC".toList) =
      .ok [overnightWindow, mondayWindow] := by rfl
  have hmeans := fun minute => schedule_unambiguous h overnightConfig 0 0 minute
  have hsunday : overnightWindow.Lies (weekMinute 0 0 0) := ⟨.sun, List.mem_cons_self, 1, by decide, by decide⟩
  have hmonday : mondayWindow.Lies (weekMinute 0 0 1) := ⟨.mon, List.mem_cons_self, 0, by decide, by decide⟩
  refine ⟨h, (hmeans 0).2.2.1 _ List.mem_cons_self hsunday,
    (hmeans 1).2.2.1 _ (List.mem_cons_of_mem _ List.mem_cons_self) hmonday, (hmeans 3).2.2.2.1 ?_,
    List.rel_of_pairwise_cons (hmeans 0).1 List.mem_cons_self⟩
  intro window hmem hlies
  rw [← (hmeans 3).2.1 window] at hlies
  revert window
  decide +kernel

end RepoWatch
