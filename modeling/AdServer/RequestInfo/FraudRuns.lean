import AdServer.Lib.KeyOrder
import AdServer.RequestInfo.FraudWindows

/-!
# The fraud profile over a run

The lists stay sorted, no request is rolled back twice, and an interval found
leaves nothing of it to be rolled back. The deactivation time is the end of the
interval found last: an impression that comes late is looked at again even while
the user is deactivated, and its interval can end earlier.
-/

namespace AdServer.RequestInfo.FraudProtection

open Lib.KeyOrder
open Lib (uint uint_of_lt)

/-- An event with what is outside the lists at its time. -/
inductive Event where
  | impression (outside : Int → Nat) (info : RequestInfo)
  | click (outside : Int → Nat) (info : RequestInfo)

def Event.info : Event → RequestInfo
  | .impression _ info => info
  | .click _ info => info

def Event.process (config : Config) (stored : Option UserFraudProtectionProfile) :
    Event → UserFraudProtectionProfile × List Nat
  | .impression outside info => processImpression config outside stored info
  | .click outside info => processClick config outside stored info

def Event.interval (config : Config) (stored : Option UserFraudProtectionProfile) :
    Event → Bool × Interval
  | .impression outside info => impressionInterval config outside stored info
  | .click outside info => clickInterval config outside stored info

/-- The request ids of the impressions. -/
def impressionIds : List Event → List Nat
  | [] => []
  | .impression _ info :: events => info.requestId :: impressionIds events
  | .click _ _ :: events => impressionIds events

/-- The motions in the order of their times. -/
def InOrder (motions : List UserMotion) : Prop :=
  motions.Pairwise fun a b => (a.time : Int) ≤ b.time

/-- An event after which nothing is forgiven. -/
structure Unforgiving (config : Config) (stored : Option UserFraudProtectionProfile)
    (event : Event) : Prop where
  requests : InOrder (event.process config stored).1.requests
  clicks : InOrder (event.process config stored).1.clicks
  rollbackRequests : InOrder (event.process config stored).1.rollbackRequests
  fraudTime : (stored.getD .new).fraudTime ≤ (event.process config stored).1.fraudTime
  reported : ∀ outside info, event = .impression outside info →
    info.time < (stored.getD .new).fraudTime * second →
      info.requestId ∈ (event.process config stored).2
  cleaned : (event.interval config stored).1 = true →
    ∀ motion ∈ (event.process config stored).1.rollbackRequests,
      ¬ ((event.interval config stored).2.start ≤ motion.at ∧
        motion.at ≤ (event.process config stored).1.fraudTime * second)

/-- The requests reported over a run. -/
def reportedIds (config : Config) (stored : Option UserFraudProtectionProfile) :
    List Event → List Nat
  | [] => []
  | event :: events => (event.process config stored).2 ++
    reportedIds config (some (event.process config stored).1) events

def EachUnforgiving (config : Config) (stored : Option UserFraudProtectionProfile) :
    List Event → Prop
  | [] => True
  | event :: events => Unforgiving config stored event ∧
    EachUnforgiving config (some (event.process config stored).1) events

/-- No event of the run forgives, and no request is reported twice. -/
def NeverForgives (config : Config) (events : List Event) : Prop :=
  EachUnforgiving config none events ∧ (reportedIds config none events).Nodup

/-- The longest period of a set is known. -/
def FraudRuleSet.Valid (set : FraudRuleSet) : Prop :=
  ∀ rule ∈ set.rules, 0 < rule.period ∧ rule.period ≤ set.maxPeriod

structure Config.Valid (config : Config) : Prop where
  impRules : config.impRules.Valid
  clickRules : config.clickRules.Valid
  deactivatePeriod : 0 ≤ config.deactivatePeriod

def Config.rules (config : Config) : List FraudRule :=
  config.impRules.rules ++ config.clickRules.rules

/-- The time of the event fits into the profile, also with a period and the deactivation
added; and an event for which the rules find an interval does not come before the
deactivation time that is stored. -/
def Event.Orderly (config : Config) (stored : Option UserFraudProtectionProfile)
    (event : Event) : Prop :=
  0 ≤ event.info.time ∧ tvSec event.info.time < 2 ^ 32 ∧
  (∀ rule ∈ config.rules,
    event.info.time + rule.period + config.deactivatePeriod < 2 ^ 32 * second) ∧
  ((event.interval config stored).1 = true →
    (stored.getD .new).fraudTime * second ≤ event.info.time)

def OrderlyRun (config : Config) (stored : Option UserFraudProtectionProfile) :
    List Event → Prop
  | [] => True
  | event :: events => event.Orderly config stored ∧
    OrderlyRun config (some (event.process config stored).1) events

theorem read_nonneg (motions : List UserMotion) (outside : Int → Nat) (position : Int) :
    0 ≤ read motions outside position := by
  have nonneg : ∀ n : Nat, 0 ≤ (n : Int) * second := by
    intro n
    unfold second
    omega
  unfold read
  split
  · split
    · exact nonneg _
    · exact nonneg _
  · exact nonneg _

variable {time now bound : Int} {motions : List UserMotion} {requestId : Nat}

/-- An interval that is found does not end before now, and what is not found leaves none. -/
def Proper (now bound : Int) (result : Bool × Interval) : Prop :=
  result = (false, ⟨0, 0⟩) ∨
    (result.1 = true ∧ now ≤ result.2.end_ ∧ 0 < result.2.end_ ∧ result.2.end_ ≤ bound)

theorem InOrder.byAt (h : InOrder motions) : motions.Pairwise (·.at ≤ ·.at) := by
  apply h.imp
  intro a b hab
  unfold UserMotion.at second
  omega

theorem userMotionsIsFraud_proper {set : FraudRuleSet} (valid : set.Valid)
    (limits : ∀ rule ∈ set.rules, 1 ≤ rule.limit) (past : 0 ≤ now)
    (within : ∀ rule ∈ set.rules, now + rule.period ≤ bound) (outside : Int → Nat)
    (h : InOrder motions) : Proper now bound (userMotionsIsFraud outside now 1 motions set) := by
  by_cases positive : 0 ≤ set.maxPeriod
  · rw [userMotionsIsFraud_eq outside h.byAt positive]
    refine List.foldlRecOn _ _ (.inl rfl) ?_
    intro result proper rule member
    obtain ⟨period, le⟩ := valid rule member
    have fits := within rule member
    dsimp only
    obtain none | ⟨at_, some, around, early, late⟩ := checkRule_around outside h.byAt
      (limits rule member) (by omega) le rfl rfl rfl rfl result.2
    · rw [none, Bool.or_false]
      exact proper
    · have nonneg := read_nonneg motions outside at_
      refine .inr ⟨by rw [some, Bool.or_true], around.2.1, ?_, ?_⟩
      · dsimp only
        omega
      obtain unfound | ⟨-, -, -, before⟩ := proper
      · rw [unfound] at late ⊢
        dsimp only at late ⊢
        omega
      · dsimp only
        omega
  · have empty : set.rules = [] := by
      rw [List.eq_nil_iff_forall_not_mem]
      intro rule member
      exact positive ((valid rule member).1.le.trans (valid rule member).2)
    rw [userMotionsIsFraud, empty]
    exact .inl rfl

theorem interval_proper {config : Config} (valid : config.Valid)
    (limits : ∀ rule ∈ config.rules, 1 ≤ rule.limit) {stored : Option UserFraudProtectionProfile}
    (requests : InOrder (stored.getD .new).requests) (clicks : InOrder (stored.getD .new).clicks)
    {event : Event} (past : 0 ≤ event.info.time)
    (within : ∀ rule ∈ config.rules, event.info.time + rule.period ≤ bound) :
    Proper event.info.time bound (event.interval config stored) := by
  obtain ⟨impLimits, clickLimits⟩ := List.forall_mem_append.1 limits
  obtain ⟨impWithin, clickWithin⟩ := List.forall_mem_append.1 within
  cases event with
  | impression outside info =>
    show Proper info.time bound (impressionInterval config outside stored info)
    unfold impressionInterval
    cases stored with
    | none => exact .inl rfl
    | some profile =>
      dsimp only
      split
      · exact userMotionsIsFraud_proper valid.impRules impLimits past impWithin _ requests
      · exact .inl rfl
  | click outside info =>
    show Proper info.time bound (clickInterval config outside stored info)
    unfold clickInterval
    cases stored with
    | none => exact .inl rfl
    | some profile =>
      dsimp only
      split
      · exact .inl rfl
      · exact userMotionsIsFraud_proper valid.clickRules clickLimits past clickWithin _ clicks

theorem InOrder.add (h : InOrder motions) (requestId : Nat) (past : 0 ≤ time)
    (fits : tvSec time < 2 ^ 32) : InOrder (addUserMotion motions requestId time) := by
  have past : 0 ≤ tvSec time := by
    unfold tvSec second
    omega
  exact @pairwise_insertLast UserMotion Int _ (fun motion : UserMotion => (motion.time : Int)) _ _ _ h
    (uint_of_lt past fits)

theorem InOrder.sublist {motions others : List UserMotion} (h : InOrder motions)
    (sub : others.Sublist motions) : InOrder others :=
  List.Pairwise.sublist sub h

section
variable (motions : List UserMotion)

theorem clear_sublist (maxTime : Int) : (clearExcessMotions motions maxTime).Sublist motions :=
  List.dropWhile_sublist _

theorem pop_sublist (minTime maxTime : Int) :
    (popRollbackRequests motions minTime maxTime).1.Sublist motions := by
  unfold popRollbackRequests
  dsimp only
  conv_rhs => rw [← rdropWhile_append_rtakeWhile (fun motion => maxTime < motion.at) motions]
  apply List.Sublist.append_right
  exact (List.rdropWhile_prefix _ _).sublist

theorem pop_perm (minTime maxTime : Int) :
    ((popRollbackRequests motions minTime maxTime).2 ++
      (popRollbackRequests motions minTime maxTime).1.map (·.requestId)).Perm
      (motions.map (·.requestId)) := by
  unfold popRollbackRequests
  dsimp only
  have all := rdropWhile_append_rtakeWhile (fun motion => maxTime < motion.at) motions
  generalize motions.rdropWhile (fun motion => maxTime < motion.at) = front at all ⊢
  generalize motions.rtakeWhile (fun motion => maxTime < motion.at) = after at all ⊢
  have split := rdropWhile_append_rtakeWhile (fun motion => minTime ≤ motion.at) front
  generalize front.rdropWhile (fun motion => minTime ≤ motion.at) = left at split ⊢
  generalize front.rtakeWhile (fun motion => minTime ≤ motion.at) = popped at split ⊢
  rw [← all, ← split]
  simp only [List.map_append, ← List.append_assoc]
  apply List.Perm.append_right
  exact ((List.reverse_perm _).append_right _).trans List.perm_append_comm

end

theorem pop_cleaned (h : InOrder motions) (minTime maxTime : Int) :
    ∀ motion ∈ (popRollbackRequests motions minTime maxTime).1,
      ¬ (minTime ≤ motion.at ∧ motion.at ≤ maxTime) := by
  have byAt := h.byAt
  rintro motion hmotion ⟨low, high⟩
  unfold popRollbackRequests at hmotion
  dsimp only at hmotion
  rcases List.mem_append.mp hmotion with hmotion | hmotion
  · have front : (motions.rdropWhile fun motion => maxTime < motion.at).Pairwise
        fun a b => a.at ≤ b.at := byAt.sublist (List.rdropWhile_prefix _ _).sublist
    have := @lt_of_mem_rdropWhile UserMotion Int _ (fun motion => motion.at) _ _ _ front hmotion
    omega
  · have := @lt_of_mem_rtakeWhile UserMotion Int _ (fun motion : UserMotion => motion.at) _ _ _ hmotion
    omega

/-- The lists are in order, and an impression is reported or waits, once. -/
structure Kept (profile : UserFraudProtectionProfile) (reported impressions : List Nat) :
    Prop where
  requests : InOrder profile.requests
  clicks : InOrder profile.clicks
  rollbackRequests : InOrder profile.rollbackRequests
  once : (reported ++ profile.rollbackRequests.map (·.requestId)).Nodup
  known : ∀ id ∈ reported ++ profile.rollbackRequests.map (·.requestId), id ∈ impressions

variable {config : Config} {profile : UserFraudProtectionProfile}
  {reported impressions : List Nat} {found : Interval}

theorem new_kept : Kept .new [] [] :=
  ⟨.nil, .nil, .nil, .nil, by simp [UserFraudProtectionProfile.new]⟩

section
variable (h : Kept profile reported impressions)
include h

theorem Kept.cleared (config : Config) (time : Int) :
    Kept (profile.cleared config time) reported impressions := by
  have sub := clear_sublist profile.rollbackRequests
    (time - max config.impRules.maxPeriod config.clickRules.maxPeriod)
  have ids := (sub.map (·.requestId)).append_left reported
  exact ⟨h.requests.sublist (clear_sublist _ _), h.clicks.sublist (clear_sublist _ _),
    h.rollbackRequests.sublist sub, h.once.sublist ids,
    fun id hid => h.known id (ids.subset hid)⟩

theorem Kept.deactivate (config : Config) (found : Interval) :
    Kept (profile.deactivate config found).1 (reported ++ (profile.deactivate config found).2)
      impressions := by
  have perm := pop_perm profile.rollbackRequests found.start
    (if found.end_ ≠ 0 then found.end_ + config.deactivatePeriod else 0)
  have ids := (perm.append_left reported).symm
  rw [← List.append_assoc] at ids
  exact ⟨h.requests, h.clicks, h.rollbackRequests.sublist (pop_sublist _ _ _),
    ids.nodup_iff.mp h.once, fun id hid => h.known id (ids.mem_iff.mpr hid)⟩

section
variable (fresh : requestId ∉ impressions)
include fresh

theorem Kept.ids {ids : List Nat}
    (perm : ids.Perm (requestId :: (reported ++ profile.rollbackRequests.map (·.requestId)))) :
    ids.Nodup ∧ ∀ id ∈ ids, id ∈ impressions ++ [requestId] := by
  constructor
  · apply perm.nodup_iff.mpr
    exact List.nodup_cons.mpr ⟨fun known => fresh (h.known requestId known), h.once⟩
  · intro id hid
    rcases List.mem_cons.mp (perm.mem_iff.mp hid) with rfl | hid
    · simp
    · exact List.mem_append_left _ (h.known id hid)

theorem Kept.report : Kept profile (reported ++ [requestId]) (impressions ++ [requestId]) := by
  have ids : ((reported ++ [requestId]) ++ profile.rollbackRequests.map (·.requestId)).Perm
      (requestId :: (reported ++ profile.rollbackRequests.map (·.requestId))) := by
    rw [List.append_assoc]
    exact List.perm_middle
  obtain ⟨once, known⟩ := h.ids fresh ids
  exact ⟨h.requests, h.clicks, h.rollbackRequests, once, known⟩

theorem Kept.wait (past : 0 ≤ time) (fits : tvSec time < 2 ^ 32) :
    Kept { profile with
        rollbackRequests := addUserMotion profile.rollbackRequests requestId time }
      reported (impressions ++ [requestId]) := by
  have ids : (reported ++
      (addUserMotion profile.rollbackRequests requestId time).map (·.requestId)).Perm
      (requestId :: (reported ++ profile.rollbackRequests.map (·.requestId))) := by
    refine .trans (List.Perm.append_left _ ((perm_insertLast _ _ _).map _)) ?_
    exact List.perm_middle
  obtain ⟨once, known⟩ := h.ids fresh ids
  exact ⟨h.requests, h.clicks, h.rollbackRequests.add requestId past fits, once, known⟩

end

end

theorem deactivate_fraudTime {isFraud : Bool} (proper : Proper now bound (isFraud, found))
    (positive : 0 ≤ config.deactivatePeriod)
    (fits : bound + config.deactivatePeriod < 2 ^ 32 * second)
    (late : isFraud = true → profile.fraudTime * second ≤ now) :
    profile.fraudTime ≤ (profile.deactivate config found).1.fraudTime ∧
    (isFraud = true → ((profile.deactivate config found).1.fraudTime : Int) =
      tvSec (found.end_ + config.deactivatePeriod)) := by
  have eq : (profile.deactivate config found).1.fraudTime =
      if found.end_ ≠ 0 then uint (tvSec (if found.end_ ≠ 0 then
        found.end_ + config.deactivatePeriod else 0)) else profile.fraudTime := rfl
  rcases proper with none | ⟨some, after, some_end, before⟩
  · cases none
    exact ⟨le_refl _, fun some => by cases some⟩
  · have le := late some
    dsimp only at after some_end before
    have sec : profile.fraudTime ≤ tvSec (found.end_ + config.deactivatePeriod) ∧
        tvSec (found.end_ + config.deactivatePeriod) < 2 ^ 32 := by
      unfold tvSec second at *
      omega
    have stored := uint_of_lt (by omega) sec.2
    have ends : found.end_ ≠ 0 := by omega
    rw [eq, if_pos ends, if_pos ends]
    exact ⟨by omega, fun _ => stored⟩

theorem deactivate_cleaned {isFraud : Bool} (proper : Proper now bound (isFraud, found))
    (h : InOrder profile.rollbackRequests) (some : isFraud = true)
    (time : ((profile.deactivate config found).1.fraudTime : Int) =
      tvSec (found.end_ + config.deactivatePeriod)) :
    ∀ motion ∈ (profile.deactivate config found).1.rollbackRequests,
      ¬ (found.start ≤ motion.at ∧
        motion.at ≤ (profile.deactivate config found).1.fraudTime * second) := by
  rcases proper with none | ⟨-, -, positive, -⟩
  · cases none
    cases some
  · rintro motion hmotion ⟨low, high⟩
    dsimp only at positive
    have ends : found.end_ ≠ 0 := by omega
    have eq : (profile.deactivate config found).1.rollbackRequests =
        (popRollbackRequests profile.rollbackRequests found.start (if found.end_ ≠ 0 then
          found.end_ + config.deactivatePeriod else 0)).1 := rfl
    rw [eq, if_pos ends] at hmotion
    apply pop_cleaned h _ _ motion hmotion ⟨low, ?_⟩
    rw [time] at high
    unfold tvSec second at high
    omega

/-- The lists of an impression before it is decided whether it is a fraud. -/
def impressionBase (config : Config) (profile : UserFraudProtectionProfile)
    (info : RequestInfo) : UserFraudProtectionProfile :=
  if info.position = 1 then
    { profile.cleared config info.time with
      requests := addUserMotion (profile.cleared config info.time).requests info.requestId
        info.time }
  else profile.cleared config info.time

theorem processImpression_eq (config : Config) (outside : Int → Nat)
    (stored : Option UserFraudProtectionProfile) (info : RequestInfo) :
    processImpression config outside stored info =
      let base := impressionBase config (stored.getD .new) info
      let interval := impressionInterval config outside stored info
      if (info.time < (stored.getD .new).fraudTime * second || interval.1) = true then
        ((base.deactivate config interval.2).1,
          info.requestId :: (base.deactivate config interval.2).2)
      else
        ({ base with
            rollbackRequests := addUserMotion base.rollbackRequests info.requestId info.time },
          []) := rfl

theorem processClick_eq (config : Config) (outside : Int → Nat)
    (stored : Option UserFraudProtectionProfile) (info : RequestInfo) :
    processClick config outside stored info =
      let base := (stored.getD .new).cleared config info.time
      let interval := clickInterval config outside stored info
      let result :=
        if (info.clickTime < (stored.getD .new).fraudTime * second || interval.1) = true then
          base.deactivate config interval.2
        else (base, [])
      ({ result.1 with
          clicks := addUserMotion result.1.clicks info.requestId info.time }, result.2) := rfl

theorem Kept.impressionBase (h : Kept profile reported impressions) (config : Config)
    {info : RequestInfo} (past : 0 ≤ info.time) (fits : tvSec info.time < 2 ^ 32) :
    Kept (impressionBase config profile info) reported impressions := by
  have cleared := h.cleared config info.time
  unfold FraudProtection.impressionBase
  split
  · exact ⟨cleared.requests.add _ past fits, cleared.clicks, cleared.rollbackRequests,
      cleared.once, cleared.known⟩
  · exact cleared

theorem impressionBase_fraudTime (config : Config) (profile : UserFraudProtectionProfile)
    (info : RequestInfo) :
    (impressionBase config profile info).fraudTime = profile.fraudTime := by
  unfold impressionBase
  split <;> rfl

variable {stored : Option UserFraudProtectionProfile}

section Steps
variable (valid : config.Valid) (limits : ∀ rule ∈ config.rules, 1 ≤ rule.limit)
include valid limits

/-- The interval found for an orderly event, before a deactivation that is still stored. -/
theorem Event.Orderly.proper {event : Event} (order : event.Orderly config stored)
    (h : Kept (stored.getD .new) reported impressions) :
    Proper event.info.time (2 ^ 32 * second - 1 - config.deactivatePeriod)
      (event.interval config stored) := by
  obtain ⟨past, -, fits, -⟩ := order
  apply interval_proper valid limits h.requests h.clicks past
  intro rule member
  have := fits rule member
  omega

theorem impression_unforgiving
    (h : Kept (stored.getD .new) reported impressions) (outside : Int → Nat)
    (info : RequestInfo) (fresh : info.requestId ∉ impressions)
    (order : (Event.impression outside info).Orderly config stored) :
    Unforgiving config stored (.impression outside info) ∧
    Kept (processImpression config outside stored info).1
      (reported ++ (processImpression config outside stored info).2)
      (impressions ++ [info.requestId]) := by
  have proper := order.proper valid limits h
  obtain ⟨past, fits, -, late⟩ := order
  have base := h.impressionBase config past fits
  have baseTime := impressionBase_fraudTime config (stored.getD .new) info
  have eq := processImpression_eq config outside stored info
  dsimp only at eq
  change Proper info.time _ (impressionInterval config outside stored info) at proper
  change (impressionInterval config outside stored info).1 = true → _ at late
  by_cases fraud : (info.time < (stored.getD .new).fraudTime * second ||
      (impressionInterval config outside stored info).1) = true
  · rw [if_pos fraud] at eq
    rw [← baseTime] at late
    obtain ⟨later, time⟩ := deactivate_fraudTime proper valid.deactivatePeriod (by omega) late
    have kept := (base.report fresh).deactivate config
      (impressionInterval config outside stored info).2
    rw [List.append_assoc, List.singleton_append] at kept
    constructor
    · refine ⟨?_, ?_, ?_, ?_, ?_, ?_⟩
      all_goals simp only [Event.process, Event.interval, eq]
      · exact kept.requests
      · exact kept.clicks
      · exact kept.rollbackRequests
      · rw [← baseTime]
        exact later
      · rintro other sameInfo same -
        cases same
        exact List.mem_cons_self
      · intro some
        exact deactivate_cleaned proper base.rollbackRequests some (time some)
    · rw [eq]
      exact kept
  · rw [if_neg fraud] at eq
    simp only [Bool.or_eq_true, decide_eq_true_eq, not_or, Bool.not_eq_true] at fraud
    have kept := base.wait fresh past fits
    constructor
    · refine ⟨?_, ?_, ?_, ?_, ?_, ?_⟩
      all_goals simp only [Event.process, Event.interval, eq]
      · exact kept.requests
      · exact kept.clicks
      · exact kept.rollbackRequests
      · rw [baseTime]
      · rintro other sameInfo same before
        cases same
        exact absurd before fraud.1
      · intro some
        rw [fraud.2] at some
        cases some
    · rw [eq, List.append_nil]
      exact kept

theorem click_unforgiving
    (h : Kept (stored.getD .new) reported impressions) (outside : Int → Nat)
    (info : RequestInfo) (order : (Event.click outside info).Orderly config stored) :
    Unforgiving config stored (.click outside info) ∧
    Kept (processClick config outside stored info).1
      (reported ++ (processClick config outside stored info).2) impressions := by
  have proper := order.proper valid limits h
  obtain ⟨past, fits, -, late⟩ := order
  have base := h.cleared config info.time
  have eq := processClick_eq config outside stored info
  dsimp only at eq
  change Proper info.time _ (clickInterval config outside stored info) at proper
  change (clickInterval config outside stored info).1 = true → _ at late
  by_cases fraud : (info.clickTime < (stored.getD .new).fraudTime * second ||
      (clickInterval config outside stored info).1) = true
  · rw [if_pos fraud] at eq
    obtain ⟨later, time⟩ := @deactivate_fraudTime _ _ config
      ((stored.getD .new).cleared config info.time) _ _ proper valid.deactivatePeriod (by omega)
      late
    have kept := base.deactivate config (clickInterval config outside stored info).2
    have clicks := kept.clicks.add info.requestId past fits
    constructor
    · refine ⟨?_, ?_, ?_, ?_, ?_, ?_⟩
      all_goals simp only [Event.process, Event.interval, eq]
      · exact kept.requests
      · exact clicks
      · exact kept.rollbackRequests
      · exact later
      · rintro other sameInfo same
        cases same
      · intro some
        exact deactivate_cleaned proper base.rollbackRequests some (time some)
    · rw [eq]
      exact ⟨kept.requests, clicks, kept.rollbackRequests, kept.once, kept.known⟩
  · rw [if_neg fraud] at eq
    simp only [Bool.or_eq_true, not_or, Bool.not_eq_true] at fraud
    have clicks := base.clicks.add info.requestId past fits
    constructor
    · refine ⟨?_, ?_, ?_, ?_, ?_, ?_⟩
      all_goals simp only [Event.process, Event.interval, eq]
      · exact base.requests
      · exact clicks
      · exact base.rollbackRequests
      · exact le_refl _
      · rintro other sameInfo same
        cases same
      · intro some
        rw [fraud.2] at some
        cases some
    · rw [eq, List.append_nil]
      exact ⟨base.requests, clicks, base.rollbackRequests, base.once, base.known⟩

theorem eachUnforgiving_of_kept {events : List Event}
    (h : Kept (stored.getD .new) reported impressions)
    (distinct : (impressions ++ impressionIds events).Nodup)
    (order : OrderlyRun config stored events) :
    EachUnforgiving config stored events ∧
    (reported ++ reportedIds config stored events).Nodup := by
  induction events generalizing stored reported impressions with
  | nil =>
    refine ⟨trivial, ?_⟩
    rw [reportedIds, List.append_nil]
    exact (List.nodup_append.mp h.once).1
  | cons event events ih =>
    obtain ⟨now, rest⟩ := order
    simp only [EachUnforgiving, reportedIds, ← List.append_assoc]
    cases event with
    | impression outside info =>
      have fresh : info.requestId ∉ impressions := by
        intro known
        have := (List.nodup_append.mp distinct).2.2 _ known info.requestId
          (by simp [impressionIds])
        exact this rfl
      obtain ⟨unforgiving, kept⟩ := impression_unforgiving valid limits h outside info fresh now
      rw [impressionIds, ← List.singleton_append, ← List.append_assoc] at distinct
      change Kept ((some (processImpression config outside stored info).1).getD .new) _ _ at kept
      obtain ⟨each, once⟩ := ih kept distinct rest
      exact ⟨⟨unforgiving, each⟩, once⟩
    | click outside info =>
      obtain ⟨unforgiving, kept⟩ := click_unforgiving valid limits h outside info now
      change Kept ((some (processClick config outside stored info).1).getD .new) _ _ at kept
      obtain ⟨each, once⟩ := ih kept distinct rest
      exact ⟨⟨unforgiving, each⟩, once⟩

end Steps

/-- A run never forgives in which no event that an interval is found for comes before the
deactivation time. -/
theorem neverForgives (config : Config) (valid : config.Valid)
    (limits : ∀ rule ∈ config.rules, 1 ≤ rule.limit) (events : List Event)
    (distinct : (impressionIds events).Nodup) (order : OrderlyRun config none events) :
    NeverForgives config events :=
  @eachUnforgiving_of_kept config [] [] none valid limits events new_kept
    (by rwa [List.nil_append]) order

/-- Two impressions within a hundred seconds are a fraud. -/
def pairRule : Config := ⟨0, .ofRules [⟨2, 100 * second⟩], .ofRules []⟩

def impressionAt (seconds : Int) (requestId : Nat) : Event :=
  .impression (fun _ => 0) ⟨seconds * second, 0, requestId, 1⟩

theorem pairRule_valid : pairRule.Valid := by
  refine ⟨?_, ?_, by decide⟩ <;> unfold FraudRuleSet.Valid <;> decide

/-- A click comes while the user is deactivated, the last impression when it ends. -/
theorem timelyImpressions_neverForgives :
    NeverForgives pairRule [impressionAt 1000 1, impressionAt 1050 2,
      .click (fun _ => 0) ⟨1040 * second, 1060 * second, 1, 1⟩, impressionAt 1100 3] := by
  apply neverForgives pairRule pairRule_valid (by decide)
  · decide
  · refine ⟨⟨?_, ?_, ?_, ?_⟩, ⟨?_, ?_, ?_, ?_⟩, ⟨?_, ?_, ?_, ?_⟩, ⟨?_, ?_, ?_, ?_⟩, trivial⟩ <;>
      decide +kernel

/-- A late impression moves the deactivation time from 1100 s back to 1060 s. -/
theorem lateImpression_not_neverForgives :
    pairRule.Valid ∧
    ¬ NeverForgives pairRule [impressionAt 1000 1, impressionAt 1050 2, impressionAt 960 3] := by
  refine ⟨pairRule_valid, ?_⟩
  rintro ⟨⟨-, -, late, -⟩, -⟩
  have back := late.fraudTime
  revert back
  decide +kernel

end AdServer.RequestInfo.FraudProtection
