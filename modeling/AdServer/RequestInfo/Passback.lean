import AdServer.Lib.FixedWidth
import Mathlib.Data.List.Basic

/-!
# Passbacks

A passback is an opportunity whose tag request is logged in one place and whose
impression in another. The half that comes first waits in a profile under the
request id for the other one.
-/

namespace AdServer.RequestInfo.Passback

open Lib (uint uint_eq_iff)

/-- A time to the microsecond. -/
structure Moment where
  tvSec : Nat
  tvUsec : Nat
  deriving DecidableEq

/-- The fields of `TagRequestInfo` that a passback has, its tag and request ids
not being null. -/
structure TagRequestInfo where
  time : Moment
  userStatus : Char
  coloId : Nat
  country : String
  tagId : Nat
  sizeId : Nat
  extTagId : String
  referer : String
  deriving DecidableEq

/-- What is delegated to `process_passback`. -/
structure PassbackInfo where
  time : Moment
  userStatus : Char
  coloId : Nat
  country : String
  tagId : Nat
  sizeId : Nat
  extTagId : String
  referer : String
  deriving DecidableEq

/-- The stored profile. Its numbers have 32 bits. -/
structure PassbackProfile where
  tagId : Nat
  sizeId : Nat
  coloId : Nat
  country : String
  extTagId : String
  referer : String
  userStatus : Char
  time : Nat
  done : Bool
  verified : Bool
  deriving DecidableEq

/-- The traits of a request as they are stored. -/
def storeRequest (info : TagRequestInfo) (done verified : Bool) : PassbackProfile where
  tagId := uint info.tagId
  sizeId := uint info.sizeId
  coloId := uint info.coloId
  country := info.country
  extTagId := info.extTagId
  referer := info.referer
  userStatus := info.userStatus
  time := uint info.time.tvSec
  done := done
  verified := verified

/-- `process_tag_request_trans_`, and `co_process_tag_request`, whose body is the
same: the profile left and what is delegated. -/
def processTagRequest (profile : Option PassbackProfile) (info : TagRequestInfo) :
    Option PassbackProfile × Option PassbackInfo :=
  match profile with
  | some passback =>
    if passback.verified && !passback.done then
      (some (storeRequest info true passback.verified),
        some {
          -- The impression came first, and its time is in the profile.
          time := ⟨passback.time, 0⟩
          userStatus := info.userStatus
          coloId := info.coloId
          country := info.country
          tagId := info.tagId
          sizeId := info.sizeId
          extTagId := info.extTagId
          referer := info.referer })
    else (profile, none)
  | none => (some (storeRequest info false false), none)

/-- `process_passback_request`, and `co_process_passback_request`. -/
def processPassbackRequest (profile : Option PassbackProfile) (impressionTime : Moment) :
    Option PassbackProfile × Option PassbackInfo :=
  match profile with
  | some passback =>
    if !passback.verified then
      (some { passback with verified := true },
        some {
          time := impressionTime
          userStatus := passback.userStatus
          coloId := passback.coloId
          country := passback.country
          tagId := passback.tagId
          sizeId := passback.sizeId
          extTagId := passback.extTagId
          referer := passback.referer })
    else (profile, none)
  | none =>
    (some {
      tagId := 0
      sizeId := 0
      coloId := 0
      country := ""
      extTagId := ""
      referer := ""
      userStatus := '-'
      time := uint impressionTime.tvSec
      done := false
      verified := true }, none)

/-- What comes for one request id. -/
inductive Event where
  | tagRequest (info : TagRequestInfo)
  | passbackRequest (impressionTime : Moment)
  deriving DecidableEq

def process (profile : Option PassbackProfile) : Event →
    Option PassbackProfile × Option PassbackInfo
  | .tagRequest info => processTagRequest profile info
  | .passbackRequest impressionTime => processPassbackRequest profile impressionTime

/-- What each of the events has delegated. -/
def delegated (profile : Option PassbackProfile) : List Event → List (Option PassbackInfo)
  | [] => []
  | event :: events =>
    (process profile event).2 :: delegated (process profile event).1 events

def firstTagRequest : List Event → Option TagRequestInfo
  | [] => none
  | .tagRequest info :: _ => some info
  | .passbackRequest _ :: events => firstTagRequest events

def firstPassbackRequest : List Event → Option Moment
  | [] => none
  | .tagRequest _ :: events => firstPassbackRequest events
  | .passbackRequest impressionTime :: _ => some impressionTime

/-- The passback of two halves, its time to the second. -/
def passbackOf (info : TagRequestInfo) (impressionTime : Moment) : PassbackInfo where
  time := ⟨impressionTime.tvSec, 0⟩
  userStatus := info.userStatus
  coloId := info.coloId
  country := info.country
  tagId := info.tagId
  sizeId := info.sizeId
  extTagId := info.extTagId
  referer := info.referer

/-- The passback of the events, if both halves are among them. -/
def passback (events : List Event) : Option PassbackInfo :=
  match firstTagRequest events, firstPassbackRequest events with
  | some info, some impressionTime => some (passbackOf info impressionTime)
  | _, _ => none

/-- What each event should delegate after those before it: the passback, as soon as
it has both halves. -/
def due (before : List Event) : List Event → List (Option PassbackInfo)
  | [] => []
  | event :: events =>
    (if passback before = none then passback (before ++ [event]) else none) ::
      due (before ++ [event]) events

/-- The ids of a request fit the profile. -/
def Fits (info : TagRequestInfo) : Prop :=
  info.tagId < 2 ^ 32 ∧ info.sizeId < 2 ^ 32 ∧ info.coloId < 2 ^ 32

/-- After a first passback request there is no tag request. -/
def NoLateRequest : List Event → Prop
  | [] => True
  | .tagRequest _ :: events => NoLateRequest events
  | .passbackRequest _ :: events => firstTagRequest events = none

/-- If the tag request comes first and the passback request follows, no other tag
request comes after that, and the ids of the first fit the profile; if the passback
request comes first and a tag request follows, its time fits. -/
def Sound : List Event → Prop
  | [] => True
  | .tagRequest info :: events =>
    firstPassbackRequest events ≠ none → NoLateRequest events ∧ Fits info
  | .passbackRequest impressionTime :: events =>
    firstTagRequest events ≠ none → impressionTime.tvSec < 2 ^ 32

end AdServer.RequestInfo.Passback
