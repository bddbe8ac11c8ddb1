import AdServer.Lib.FixedWidth
import Mathlib.Data.List.DropRight

/-!
# The fraud profile of a user

A user with too many impressions or clicks within a period of a rule is
deactivated: the impressions of the interval found are rolled back, and those that
come before the deactivation time are rolled back at once.
-/

namespace AdServer.RequestInfo.FraudProtection

open Lib (uint)

/-- A second of a time, which is a number of microseconds. -/
def second : Int := 1000000

def tvSec (time : Int) : Int := time / second

structure FraudRule where
  limit : Nat
  period : Int
  deriving DecidableEq

structure FraudRuleSet where
  maxPeriod : Int
  rules : List FraudRule
  deriving DecidableEq

/-- The rules, the longest period first. -/
def FraudRuleSet.addRule (set : FraudRuleSet) (rule : FraudRule) : FraudRuleSet where
  maxPeriod := max set.maxPeriod rule.period
  rules := set.rules.takeWhile (fun other => rule.period ≤ other.period) ++ rule ::
    set.rules.dropWhile (fun other => rule.period ≤ other.period)

def FraudRuleSet.ofRules (rules : List FraudRule) : FraudRuleSet :=
  rules.foldl FraudRuleSet.addRule ⟨0, []⟩

structure Config where
  deactivatePeriod : Int
  impRules : FraudRuleSet
  clickRules : FraudRuleSet

/-- An impression or a click that a user has made. The time has 32 bits. -/
structure UserMotion where
  time : Nat
  requestId : Nat
  deriving DecidableEq

def UserMotion.at (motion : UserMotion) : Int := motion.time * second

structure UserFraudProtectionProfile where
  fraudTime : Nat
  requests : List UserMotion
  rollbackRequests : List UserMotion
  clicks : List UserMotion
  deriving DecidableEq

set_option linter.dupNamespace false in
structure RequestInfo where
  time : Int
  clickTime : Int
  requestId : Nat
  position : Nat

def addUserMotion (motions : List UserMotion) (requestId : Nat) (time : Int) :
    List UserMotion :=
  motions.rdropWhile (fun motion => tvSec time < motion.time) ++ ⟨uint (tvSec time), requestId⟩ ::
    motions.rtakeWhile (fun motion => tvSec time < motion.time)

def clearExcessMotions (motions : List UserMotion) (maxTime : Int) : List UserMotion :=
  motions.dropWhile fun motion => motion.time < tvSec maxTime

/-- The motions left and the requests to be rolled back, the last one first. -/
def popRollbackRequests (motions : List UserMotion) (minTime maxTime : Int) :
    List UserMotion × List Nat :=
  let until_ := motions.rdropWhile fun motion => maxTime < motion.at
  let after := motions.rtakeWhile fun motion => maxTime < motion.at
  (until_.rdropWhile (fun motion => minTime ≤ motion.at) ++ after,
    ((until_.rtakeWhile fun motion => minTime ≤ motion.at).map (·.requestId)).reverse)

/-- The first position from one to another whose time is not below the bound. -/
def lowerBound (motions : List UserMotion) (first last : Nat) (bound : Int) : Nat :=
  first + (((motions.drop first).take (last - first)).takeWhile fun motion =>
    motion.at < bound).length

/-- The first position from one to another whose time is above the bound. -/
def upperBound (motions : List UserMotion) (first last : Nat) (bound : Int) : Nat :=
  first + (((motions.drop first).take (last - first)).takeWhile fun motion =>
    motion.at ≤ bound).length

/-- A motion that is read. With a rule of limit 0 the walks can leave the list, and
then they read what happens to be there. -/
def read (motions : List UserMotion) (outside : Int → Nat) (position : Int) : Int :=
  if 0 ≤ position then
    match motions[position.toNat]? with
    | some motion => motion.at
    | none => outside position * second
  else outside position * second

/-- The search from past to future: the start of the interval found. -/
def searchForward (rule : FraudRule) (time : Int → Int) (nowMotions : Nat) (checkEnd : Int) :
    Nat → Int → Int → Option Int
  | 0, _, _ => none
  | fuel + 1, checkStart, right =>
    if checkStart ≠ checkEnd ∧ right ≠ checkEnd then
      if rule.period + time checkStart < time right then
        searchForward rule time nowMotions checkEnd fuel (checkStart + 1) right
      else if rule.limit ≤ right - checkStart + 1 + nowMotions then some checkStart
      else searchForward rule time nowMotions checkEnd fuel checkStart (right + 1)
    else none

/-- The search from future to past: the start of the last interval. -/
def searchBackward (rule : FraudRule) (time : Int → Int) (nowMotions : Nat) (checkStart : Int) :
    Nat → Int → Int → Option Int
  | 0, _, _ => none
  | fuel + 1, checkEnd, left =>
    if checkEnd ≠ checkStart ∧ left ≠ checkStart then
      if rule.period + time left < time checkEnd then
        searchBackward rule time nowMotions checkStart fuel (checkEnd - 1) left
      else if rule.limit ≤ checkEnd - left + 1 + nowMotions then some left
      else searchBackward rule time nowMotions checkStart fuel checkEnd (left - 1)
    else none

/-- The times of a fraud interval found so far, 0 for none. -/
structure Interval where
  start : Int
  end_ : Int
  deriving DecidableEq

/-- The two searches for one rule between its bounds. -/
def searchRule (rule : FraudRule) (time : Int → Int) (now : Int) (nowMotions fuel : Nat)
    (checkStart checkEnd : Int) (found : Interval) : Bool × Interval :=
  match searchForward rule time nowMotions checkEnd fuel checkStart checkStart with
  | none => (false, found)
  | some start =>
    let fraudMinTime := min now (time start)
    let found : Interval :=
      ⟨if found.start = 0 then fraudMinTime else min found.start fraudMinTime,
        max found.end_ (fraudMinTime + rule.period)⟩
    if start ≠ checkEnd then
      match searchBackward rule time nowMotions start fuel (checkEnd - 1) (checkEnd - 1) with
      | none => (true, found)
      | some left =>
        (true, { found with end_ := max found.end_ (min now (time left) + rule.period) })
    else (true, found)

/-- One rule, with the bounds of the motions around now. -/
def checkRule (motions : List UserMotion) (outside : Int → Nat) (now : Int) (nowMotions : Nat)
    (checkallStart checkallEnd nowLow nowUp : Nat) (found : Interval) (rule : FraudRule) :
    Bool × Interval :=
  let checkStart := lowerBound motions checkallStart nowLow (now - rule.period)
  let checkEnd := upperBound motions nowUp checkallEnd (now + rule.period)
  if rule.limit ≤ checkEnd - checkStart + nowMotions then
    -- No more motions than the limit on each side of now.
    let start : Int :=
      if rule.limit < nowLow - checkStart + 1 then nowLow + (1 - rule.limit : Int)
      else checkStart
    let end_ : Int := if rule.limit < checkEnd - nowUp then nowUp + rule.limit else checkEnd
    searchRule rule (read motions outside) now nowMotions (2 * motions.length + 2) start end_
      found
  else (false, found)

/-- `user_motions_is_fraud`, with the times of the interval found. -/
def userMotionsIsFraud (outside : Int → Nat) (now : Int) (nowMotions : Nat)
    (motions : List UserMotion) (fraudRules : FraudRuleSet) : Bool × Interval :=
  let checkallStart := lowerBound motions 0 motions.length (now - fraudRules.maxPeriod)
  let checkallEnd :=
    lowerBound motions checkallStart motions.length (now + fraudRules.maxPeriod)
  let nowUp := upperBound motions checkallStart checkallEnd now
  let nowLow := lowerBound motions checkallStart nowUp now
  fraudRules.rules.foldl (fun (isFraud, found) rule =>
    let (localIsFraud, found) :=
      checkRule motions outside now nowMotions checkallStart checkallEnd nowLow nowUp found rule
    (isFraud || localIsFraud, found)) (false, ⟨0, 0⟩)

/-- The lists without what is too old for the rules. -/
def UserFraudProtectionProfile.cleared (profile : UserFraudProtectionProfile) (config : Config)
    (time : Int) : UserFraudProtectionProfile :=
  { profile with
    requests := clearExcessMotions profile.requests (time - config.impRules.maxPeriod)
    rollbackRequests := clearExcessMotions profile.rollbackRequests
      (time - max config.impRules.maxPeriod config.clickRules.maxPeriod)
    clicks := clearExcessMotions profile.clicks (time - config.clickRules.maxPeriod) }

def UserFraudProtectionProfile.new : UserFraudProtectionProfile := ⟨0, [], [], []⟩

/-- The branch of a fraud: the deactivation time is stored if an interval has been
found, and the requests of the interval are rolled back. -/
def UserFraudProtectionProfile.deactivate (profile : UserFraudProtectionProfile)
    (config : Config) (found : Interval) : UserFraudProtectionProfile × List Nat :=
  let userDeactivateTime := if found.end_ ≠ 0 then found.end_ + config.deactivatePeriod else 0
  let (left, popped) :=
    popRollbackRequests profile.rollbackRequests found.start userDeactivateTime
  ({ profile with
      fraudTime :=
        if found.end_ ≠ 0 then uint (tvSec userDeactivateTime) else profile.fraudTime
      rollbackRequests := left }, popped)

/-- The interval that is looked for at an impression. -/
def impressionInterval (config : Config) (outside : Int → Nat)
    (stored : Option UserFraudProtectionProfile) (info : RequestInfo) : Bool × Interval :=
  match stored with
  | some profile =>
    if info.position = 1 then
      userMotionsIsFraud outside info.time 1 profile.requests config.impRules
    else (false, ⟨0, 0⟩)
  | none => (false, ⟨0, 0⟩)

/-- `process_impression_trans_`: the profile saved and the fraud impressions. -/
def processImpression (config : Config) (outside : Int → Nat)
    (stored : Option UserFraudProtectionProfile) (info : RequestInfo) :
    UserFraudProtectionProfile × List Nat :=
  let profile := stored.getD .new
  let (isFraud, found) := impressionInterval config outside stored info
  let fraud := info.time < profile.fraudTime * second || isFraud
  let profile := profile.cleared config info.time
  let profile :=
    if info.position = 1 then
      { profile with requests := addUserMotion profile.requests info.requestId info.time }
    else profile
  if fraud then
    let (profile, popped) := profile.deactivate config found
    (profile, info.requestId :: popped)
  else
    ({ profile with
        rollbackRequests :=
          addUserMotion profile.rollbackRequests info.requestId info.time }, [])

/-- The interval that is looked for at a click. -/
def clickInterval (config : Config) (outside : Int → Nat)
    (stored : Option UserFraudProtectionProfile) (info : RequestInfo) : Bool × Interval :=
  match stored with
  | some profile =>
    if info.clickTime < profile.fraudTime * second then (false, ⟨0, 0⟩)
    else userMotionsIsFraud outside info.time 1 profile.clicks config.clickRules
  | none => (false, ⟨0, 0⟩)

/-- `process_click_trans_`. -/
def processClick (config : Config) (outside : Int → Nat)
    (stored : Option UserFraudProtectionProfile) (info : RequestInfo) :
    UserFraudProtectionProfile × List Nat :=
  let profile := stored.getD .new
  let (isFraud, found) := clickInterval config outside stored info
  let fraud := info.clickTime < profile.fraudTime * second || isFraud
  let profile := profile.cleared config info.time
  let (profile, popped) := if fraud then profile.deactivate config found else (profile, [])
  ({ profile with clicks := addUserMotion profile.clicks info.requestId info.time }, popped)

end AdServer.RequestInfo.FraudProtection
