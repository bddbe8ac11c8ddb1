import AdServer.Lib.FixedWidth
import Mathlib.Data.List.Basic

/-!
# Custom actions and impressions

An impression finds the custom actions that have come before it among the action
markers of the user's profile, and a custom action finds its impressions among the
impressions stored. Each pair is delegated by the one that comes second.
-/

namespace AdServer.RequestInfo.CustomActions

open Lib (uint)

def timeSyncPrecision : Int := 2

def maxDoneImpressions : Nat := 100

def maxKeepCustomActionMarkers : Nat := 100

def day : Int := 24 * 60 * 60

def doneImpressionsExpireTime : Int := 30 * day

def customActionMarkerExpireTime : Int := 7 * day

def unsignedLong (value : Int) : Nat := (value % 2 ^ 64).toNat

/-- An impression with custom actions. Times are in whole seconds. -/
structure ImpressionInfo where
  impTime : Int
  ccgId : Nat
  requestId : Nat
  deriving DecidableEq

structure AdvExActionInfo where
  time : Int
  actionId : Nat
  ccgIds : List Nat
  actionRequestId : Nat
  referer : String
  orderId : String
  actionValue : Int
  deriving DecidableEq

/-- What is delegated of an action. -/
structure AdvCustomActionInfo where
  time : Int
  actionId : Nat
  actionRequestId : Nat
  referer : String
  orderId : String
  actionValue : Int
  deriving DecidableEq

structure DoneImpression where
  ccgId : Nat
  time : Nat
  requestId : Nat
  deriving DecidableEq

structure CustomActionMarker where
  time : Nat
  actionId : Nat
  actionRequestId : Nat
  ccgIds : List Nat
  referer : String
  orderId : String
  actionValue : Int
  deriving DecidableEq

structure DoneAction where
  actionId : Nat
  time : Nat
  deriving DecidableEq

/-- The lists of the profile that custom actions use. -/
structure UserActionProfile where
  doneImpressions : List DoneImpression
  customActionMarkers : List CustomActionMarker
  customDoneActions : List DoneAction
  deriving DecidableEq

def UserActionProfile.new : UserActionProfile := ⟨[], [], []⟩

/-- The request and the action of a pair. -/
abbrev Delegated := Nat × AdvCustomActionInfo

def doneActionLess (action : DoneAction) (actionId time : Nat) : Bool :=
  action.actionId < actionId || (action.actionId = actionId && action.time < time)

def isNear (info : AdvExActionInfo) (timeout : Nat) (action : DoneAction) : Bool :=
  action.actionId = info.actionId && (action.time - info.time).natAbs < timeout

/-- `check_action_time_bounds_`: whether an action is ignored, by the neighbours
among the done actions. -/
def checkActionTimeBounds (doneActions : List DoneAction) (info : AdvExActionInfo)
    (actionIgnoreTime : Int) : Bool :=
  let less := fun action => doneActionLess action info.actionId (unsignedLong info.time)
  let timeout := unsignedLong actionIgnoreTime
  ((doneActions.dropWhile less).head?.any (isNear info timeout)) ||
    ((doneActions.takeWhile less).getLast?.any (isNear info timeout))

def insertDoneAction (doneActions : List DoneAction) (info : AdvExActionInfo) :
    List DoneAction :=
  let notAbove := fun action : DoneAction =>
    !(info.actionId < action.actionId ||
      (info.actionId = action.actionId && unsignedLong info.time < action.time))
  doneActions.takeWhile notAbove ++ ⟨uint info.actionId, uint info.time⟩ ::
    doneActions.dropWhile notAbove

/-- `std::binary_search`. -/
def binarySearch (values : List Nat) (value : Nat) : Bool :=
  match values.dropWhile (· < value) with
  | found :: _ => !(value < found)
  | [] => false

def customActionMarkerLess (marker : CustomActionMarker) (time actionId : Nat) : Bool :=
  marker.time < time || (marker.time = time && marker.actionId < actionId)

def CustomActionMarker.info (marker : CustomActionMarker) : AdvCustomActionInfo where
  time := marker.time
  actionId := marker.actionId
  actionRequestId := marker.actionRequestId
  referer := marker.referer
  orderId := marker.orderId
  actionValue := marker.actionValue

/-- The actions that are delegated for an impression. -/
def actionsForImpression (profile : UserActionProfile) (info : ImpressionInfo) :
    List AdvCustomActionInfo :=
  ((profile.customActionMarkers.dropWhile fun marker =>
      customActionMarkerLess marker (unsignedLong (info.impTime - timeSyncPrecision)) 0).filter
    fun marker => binarySearch marker.ccgIds info.ccgId).map (·.info)

/-- The impression at its place, and the first one of its group erased if there are
too many. -/
def insertImpression (doneImpressions : List DoneImpression) (info : ImpressionInfo) :
    List DoneImpression :=
  let before := doneImpressions.takeWhile (·.ccgId < info.ccgId)
  let rest := doneImpressions.dropWhile (·.ccgId < info.ccgId)
  let earlier := rest.takeWhile fun imp => imp.ccgId = info.ccgId && imp.time < info.impTime
  let later := rest.dropWhile fun imp => imp.ccgId = info.ccgId && imp.time < info.impTime
  let inserted : DoneImpression := ⟨uint info.ccgId, uint info.impTime, info.requestId⟩
  let count := earlier.length + 1 + (later.takeWhile (·.ccgId = info.ccgId)).length
  if maxDoneImpressions < count then
    match earlier with
    | _ :: earlier => before ++ earlier ++ inserted :: later
    | [] => before ++ inserted :: later.tail
  else before ++ earlier ++ inserted :: later

def clearExpiredAt2 (profile : UserActionProfile) (now : Int) : UserActionProfile :=
  let impExpireTime := unsignedLong (now - doneImpressionsExpireTime)
  let actExpireTime := unsignedLong (now - customActionMarkerExpireTime)
  { profile with
    doneImpressions := profile.doneImpressions.filter (impExpireTime ≤ ·.time)
    customActionMarkers := profile.customActionMarkers.dropWhile (·.time < actExpireTime) }

/-- `process_impression_trans_`: the profile saved and the actions delegated. -/
def processImpression (stored : Option UserActionProfile) (info : ImpressionInfo) :
    UserActionProfile × List AdvCustomActionInfo :=
  let profile := stored.getD .new
  (clearExpiredAt2
    { profile with doneImpressions := insertImpression profile.doneImpressions info }
    info.impTime,
   match stored with
   | some profile => actionsForImpression profile info
   | none => [])

def AdvExActionInfo.info (info : AdvExActionInfo) : AdvCustomActionInfo where
  time := info.time
  actionId := info.actionId
  actionRequestId := info.actionRequestId
  referer := info.referer
  orderId := info.orderId
  actionValue := info.actionValue

/-- The impressions stored of one group that come before the action. -/
def impressionsForGroup (doneImpressions : List DoneImpression) (info : AdvExActionInfo)
    (ccgId : Nat) : List DoneImpression :=
  (doneImpressions.dropWhile (·.ccgId < ccgId)).takeWhile fun imp =>
    imp.ccgId = ccgId && imp.time ≤ info.time + timeSyncPrecision

def impressionsForAction (profile : UserActionProfile) (info : AdvExActionInfo) :
    List Delegated :=
  (info.ccgIds.flatMap (impressionsForGroup profile.doneImpressions info)).map fun imp =>
    (imp.requestId, info.info)

def insertMarker (markers : List CustomActionMarker) (info : AdvExActionInfo) :
    List CustomActionMarker :=
  let before := markers.takeWhile (·.time < info.time)
  let rest := markers.dropWhile (·.time < info.time)
  let same := fun marker : CustomActionMarker =>
    marker.time = info.time && marker.actionId < info.actionId
  before ++ rest.takeWhile same ++ {
    time := uint info.time
    actionId := uint info.actionId
    actionRequestId := info.actionRequestId
    ccgIds := info.ccgIds.map fun ccgId : Nat => uint ccgId
    referer := info.referer
    orderId := info.orderId
    actionValue := info.actionValue } :: rest.dropWhile same

/-- The walk from the last marker on that erases the excess ones of an action. -/
def clearExcessMarkers (actionId : Nat) : Nat → List CustomActionMarker →
    List CustomActionMarker
  | _, [] => []
  | amCount, marker :: markers =>
    if marker.actionId = actionId then
      if maxKeepCustomActionMarkers ≤ amCount then
        clearExcessMarkers actionId amCount markers
      else marker :: clearExcessMarkers actionId (amCount + 1) markers
    else marker :: clearExcessMarkers actionId amCount markers

/-- `process_custom_action_trans_`: the profile left and the pairs delegated. -/
def processCustomAction (actionIgnoreTime : Int) (stored : Option UserActionProfile)
    (info : AdvExActionInfo) : Option UserActionProfile × List Delegated :=
  let ignoreAction := match stored with
    | some profile => checkActionTimeBounds profile.customDoneActions info actionIgnoreTime
    | none => false
  if ignoreAction then (stored, [])
  else
    let profile := stored.getD .new
    (some (clearExpiredAt2
      { profile with
        customActionMarkers :=
          (clearExcessMarkers info.actionId 0
            (insertMarker profile.customActionMarkers info).reverse).reverse
        customDoneActions := insertDoneAction profile.customDoneActions info }
      info.time),
     match stored with
     | some profile => impressionsForAction profile info
     | none => [])

inductive Event where
  | impression (info : ImpressionInfo)
  | action (info : AdvExActionInfo)
  deriving DecidableEq

def Event.time : Event → Int
  | .impression info => info.impTime
  | .action info => info.time

def process (actionIgnoreTime : Int) (stored : Option UserActionProfile) :
    Event → Option UserActionProfile × List Delegated
  | .impression info =>
    (some (processImpression stored info).1,
      (processImpression stored info).2.map fun action => (info.requestId, action))
  | .action info => processCustomAction actionIgnoreTime stored info

/-- The profile after the events, the last one first. -/
def profileAfter (actionIgnoreTime : Int) : List Event → Option UserActionProfile
  | [] => none
  | event :: history => (process actionIgnoreTime (profileAfter actionIgnoreTime history) event).1

/-- What the events have delegated, the last one first. -/
def delegatedBy (actionIgnoreTime : Int) : List Event → List Delegated
  | [] => []
  | event :: history =>
    (process actionIgnoreTime (profileAfter actionIgnoreTime history) event).2 ++
      delegatedBy actionIgnoreTime history

end AdServer.RequestInfo.CustomActions
