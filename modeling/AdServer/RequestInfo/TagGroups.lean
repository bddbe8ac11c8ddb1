import AdServer.Lib.FixedWidth
import Mathlib.Algebra.BigOperators.Group.Multiset.Basic
import Mathlib.Data.List.DropRight

/-!
# Groups of tag requests

The tag requests of one page make a group. A group is delegated as soon as it has
a request, and each further request rolls the delegated version back and delegates
a new one, computed from the group that the profile keeps.
-/

namespace AdServer.RequestInfo.TagGroups

open Lib (uint)

/-- A tag request of one user. Its time is in whole seconds. -/
structure TagRequestInfo where
  time : Int
  coloId : Nat
  tagId : Nat
  refererHash : Option Nat
  country : String
  siteId : Nat
  pageLoadId : Option Nat
  adShown : Bool
  deriving DecidableEq

/-- A group in the profile, whose numbers have 32 bits. -/
structure TagGroup where
  country : String
  coloId : Nat
  siteId : Nat
  pageLoadId : Nat
  refererHash : Nat
  minTime : Nat
  maxTime : Nat
  tags : List Nat
  adShown : Bool
  deriving DecidableEq

/-- What is delegated to `process_tag_request_group`. -/
structure TagRequestGroupInfo where
  time : Int
  coloId : Nat
  siteId : Nat
  country : String
  tags : Multiset Nat
  adShown : Bool
  rollback : Bool
  deriving DecidableEq

def keepGroupTime : Int := 24 * 60 * 60

def keepMaxGroups : Nat := 100

def maxTagsInGroup : Nat := 20

/-- `init_tag_group_info`. -/
def initTagGroupInfo (group : TagGroup) (rollback : Bool) : TagRequestGroupInfo where
  time := group.minTime
  coloId := group.coloId
  siteId := group.siteId
  country := group.country
  tags := group.tags
  adShown := group.adShown
  rollback := rollback

/-- `fill_tag_group_info`. -/
def fillTagGroupInfo (info : TagRequestInfo) : TagRequestGroupInfo where
  time := info.time
  coloId := info.coloId
  siteId := info.siteId
  country := info.country
  tags := {info.tagId}
  adShown := info.adShown
  rollback := false

/-- The loop of `clear_excess_tag_request_groups`. -/
def eraseGroups (keepTime : Int) : Int → List TagGroup → List TagGroup
  | _, [] => []
  | countToErase, group :: groups =>
    if group.maxTime < keepTime ∨ 0 < countToErase then
      eraseGroups keepTime (countToErase - 1) groups
    else group :: groups

def clearExcessTagRequestGroups (groups : List TagGroup) (keepTime : Int) : List TagGroup :=
  eraseGroups keepTime
    -- The unsigned difference is below zero, and negative when it becomes a `long`.
    (if keepMaxGroups < groups.length then keepMaxGroups - groups.length else 0) groups

def sameTraits (group : TagGroup) (info : TagRequestInfo) : Bool :=
  group.siteId = info.siteId && group.coloId = info.coloId && group.country = info.country

def pageMatches (bound : Int) (info : TagRequestInfo) (pageLoadId : Nat) (group : TagGroup) :
    Bool :=
  (group.pageLoadId = pageLoadId ||
    (group.pageLoadId = 0 && group.refererHash = info.refererHash.getD 0 &&
      group.minTime ≤ info.time + bound && info.time ≤ group.maxTime + bound)) &&
  sameTraits group info

def refererMatches (bound : Int) (info : TagRequestInfo) (group : TagGroup) : Bool :=
  group.refererHash = info.refererHash.getD 0 && group.minTime ≤ info.time + bound &&
  sameTraits group info

/-- A walk back over the groups, the last one first: what is before the group
found, the group, and what is after it. -/
def searchBack (stops found : TagGroup → Bool) : List TagGroup → List TagGroup →
    Option (List TagGroup × TagGroup × List TagGroup)
  | [], _ => none
  | group :: before, after =>
    if stops group then none
    else if found group then some (before.reverse, group, after)
    else searchBack stops found before (group :: after)

def targetGroup (bound : Int) (groups : List TagGroup) (info : TagRequestInfo) :
    Option (List TagGroup × TagGroup × List TagGroup) :=
  let pageLoadId := info.pageLoadId.getD 0
  if pageLoadId ≠ 0 then
    searchBack (fun _ => false) (pageMatches bound info pageLoadId) groups.reverse []
  else
    searchBack (fun group => group.maxTime + bound < info.time) (refererMatches bound info)
      groups.reverse []

/-- The group with a request more. -/
def TagGroup.addRequest (group : TagGroup) (info : TagRequestInfo) : TagGroup :=
  { group with
    tags := group.tags ++ [uint info.tagId]
    adShown := group.adShown || info.adShown
    minTime := min group.minTime (uint info.time)
    maxTime := max group.maxTime (uint info.time)
    pageLoadId :=
      if info.pageLoadId.getD 0 ≠ 0 then uint (info.pageLoadId.getD 0) else group.pageLoadId }

def newGroup (info : TagRequestInfo) : TagGroup where
  country := info.country
  coloId := uint info.coloId
  siteId := uint info.siteId
  pageLoadId := uint (info.pageLoadId.getD 0)
  refererHash := uint (info.refererHash.getD 0)
  minTime := uint info.time
  maxTime := uint info.time
  tags := [uint info.tagId]
  adShown := info.adShown

/-- `insert_tag_request`: the groups and what is delegated. -/
def insertTagRequest (bound : Int) (groups : List TagGroup) (info : TagRequestInfo) :
    List TagGroup × List TagRequestGroupInfo :=
  match targetGroup bound groups info with
  | some (before, group, after) =>
    -- The place of the group by its new maximum.
    let (before, after) :=
      if group.maxTime < info.time ∧ after ≠ [] then
        (before ++ after.takeWhile (·.maxTime < info.time),
          after.dropWhile (·.maxTime < info.time))
      else (before, after)
    let rolledBack := initTagGroupInfo group true
    let delegated := { rolledBack with
      tags := info.tagId ::ₘ rolledBack.tags
      adShown := rolledBack.adShown || info.adShown
      rollback := false }
    if group.tags.length + 1 < maxTagsInGroup then
      (before ++ group.addRequest info :: after, [rolledBack, delegated])
    else (before ++ after, [rolledBack, delegated])
  | none =>
    (groups.rdropWhile (info.time < ·.maxTime) ++
      newGroup info :: groups.rtakeWhile (info.time < ·.maxTime), [fillTagGroupInfo info])

/-- `process_tag_request`, with the profile of the user: the groups left and what
is delegated. -/
def processTagRequest (bound : Int) (groups : List TagGroup) (info : TagRequestInfo) :
    List TagGroup × List TagRequestGroupInfo :=
  if info.tagId = 0 then (groups, [])
  else if info.refererHash = none ∧ info.pageLoadId = none then
    (groups, [fillTagGroupInfo info])
  else
    let (inserted, delegated) := insertTagRequest bound groups info
    (clearExcessTagRequestGroups inserted (info.time - keepGroupTime), delegated)

end AdServer.RequestInfo.TagGroups
