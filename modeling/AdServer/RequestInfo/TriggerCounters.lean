import AdServer.Lib.SummedMap
import AdServer.RequestInfo.TriggerMatches
import Mathlib.Data.Prod.Lex
import Mathlib.Tactic.FieldSimp
import Mathlib.Tactic.Linarith

/-!
# Trigger counters of an impression

What an impression counts for the triggers of its channels: each stored visit gives its
positive triggers a part and takes one from its negative triggers.
-/

namespace AdServer.RequestInfo.UserTriggerMatch

open AdServer.Lib

/-- `MatchCounterKey`: `channel_trigger_id`, then `channel_id`. -/
abbrev MatchCounterKey := Nat ×ₗ Nat

def matchCounterKey (channelTriggerId channelId : Nat) : MatchCounterKey :=
  toLex (channelTriggerId, channelId)

def MatchCounterKey.channelId (key : MatchCounterKey) : Nat := (ofLex key).2

abbrev MatchCountMap := SortedMap MatchCounterKey ℚ

/-! ## Matches of a type -/

/-- `move_for_channel_matches`: the matches of the channel that are used, the last ones, and
where they begin. -/
def moveForChannelMatches (channelId minVisits : Nat) (pit : List ChannelMatch) :
    List ChannelMatch × List ChannelMatch :=
  let own := pit.takeWhile fun stored => stored.channelId == channelId
  (own.drop (own.length - minVisits), pit.drop (own.length - minVisits))

/-- `RevenueDecimal::div`. -/
def div? (dividend divisor : ℚ) : Option ℚ := if divisor = 0 then none else some (dividend / divisor)

def groupSize? (triggers matchedTriggers : Nat) : Option Nat :=
  if matchedTriggers = 0 then none else some (triggers / matchedTriggers)

def inc? (minVisits : Nat) (weight : ℚ) (stored : ChannelMatch) (positiveGroupSize : Nat) :
    Option ℚ :=
  if 1 < stored.triggersInChannel then
    div? (stored.triggersInChannel - 1 : Nat)
      ((stored.matchedTriggers * minVisits *
        (stored.triggersInChannel - positiveGroupSize) : Nat) * weight)
  else div? 1 (weight * minVisits)

def dec? (minVisits : Nat) (weight : ℚ) (stored : ChannelMatch)
    (positiveGroupSize negativeGroupSize : Nat) : Option ℚ :=
  div? (stored.triggersInChannel * (positiveGroupSize - 1) : Nat)
    ((stored.matchedTriggers * minVisits * negativeGroupSize *
      (stored.triggersInChannel - positiveGroupSize) : Nat) * weight)

/-- `res_matches[key] += amount`, for each of the triggers. -/
def addTriggers (channelId : Nat) (amount : ℚ) (triggers : List Nat) (res : MatchCountMap) :
    MatchCountMap :=
  res.addAll (triggers.map fun trigger => (matchCounterKey trigger channelId, amount))

def collectMatch (minVisits : Nat) (weight : ℚ) (res : MatchCountMap) (stored : ChannelMatch) :
    Option MatchCountMap := do
  let positiveGroupSize ← groupSize? stored.positiveMatches.length stored.matchedTriggers
  let negativeGroupSize ← groupSize? stored.negativeMatches.length stored.matchedTriggers
  let inc ← inc? minVisits weight stored positiveGroupSize
  let res := addTriggers stored.channelId inc stored.positiveMatches res
  if 0 < negativeGroupSize then
    let dec ← dec? minVisits weight stored positiveGroupSize negativeGroupSize
    some (addTriggers stored.channelId (-dec) stored.negativeMatches res)
  else some res

/-- `collect_matches` of one type and channel. -/
def collectUsed (minVisits : Nat) (weight : ℚ) (used : List ChannelMatch) (res : MatchCountMap) :
    Option MatchCountMap :=
  if 0 < minVisits then used.foldlM (collectMatch minVisits weight) res else some res

/-! ## Channels of an impression -/

/-- `default_channel_info_`. -/
def defaultChannelInfo : ChannelInfo where
  timeTo := ⟨0, 0, 0, 0⟩
  minVisits := ⟨1, 1, 1, 1⟩
  triggers := ⟨[], [], [], []⟩

/-- The four iterators and the four results. -/
structure Collecting where
  pits : ByType (List ChannelMatch)
  res : ByType MatchCountMap

def weightOf (minVisits count : Nat) : ℚ := if 0 < minVisits then (count : ℚ) / minVisits else 0

def infoOf (channels : ChannelInfoMap) (channelId : Nat) : ChannelInfo :=
  (channels.find? channelId).getD defaultChannelInfo

def collectChannel (channels : ChannelInfoMap) (c : Collecting) (channelId : Nat) :
    Option Collecting := do
  let visits := (infoOf channels channelId).minVisits
  let move (minVisits : Nat) (pit : List ChannelMatch) :=
    moveForChannelMatches channelId minVisits
      (pit.dropWhile fun stored => decide (stored.channelId < channelId))
  let page := move visits.page c.pits.page
  let search := move visits.search c.pits.search
  let url := move visits.url c.pits.url
  let urlKeyword := move visits.urlKeyword c.pits.urlKeyword
  let sumWeight := weightOf visits.page page.1.length + weightOf visits.search search.1.length +
    weightOf visits.url url.1.length + weightOf visits.urlKeyword urlKeyword.1.length
  let resPage ← collectUsed visits.page sumWeight page.1 c.res.page
  let resSearch ← collectUsed visits.search sumWeight search.1 c.res.search
  let resUrl ← collectUsed visits.url sumWeight url.1 c.res.url
  let resUrlKeyword ← collectUsed visits.urlKeyword sumWeight urlKeyword.1 c.res.urlKeyword
  some ⟨⟨page.2, search.2, url.2, urlKeyword.2⟩, ⟨resPage, resSearch, resUrl, resUrlKeyword⟩⟩

/-- `collect_matches`, for the channels in order. -/
def collectMatches (channels : ChannelInfoMap) (ids : List Nat)
    (stored : ByType (List ChannelMatch)) : Option (ByType MatchCountMap) :=
  (ids.foldlM (collectChannel channels) ⟨stored, ⟨.empty, .empty, .empty, .empty⟩⟩).map
    Collecting.res

/-! ## What is promised -/

/-- The matches of the channel that are used. -/
def used (stored : List ChannelMatch) (channelId minVisits : Nat) : List ChannelMatch :=
  let own := stored.filter fun one => one.channelId == channelId
  own.drop (own.length - minVisits)

/-- The counters of the channel, over all its triggers. -/
def channelTotal (channelId : Nat) (counters : MatchCountMap) : ℚ :=
  counters.totalOf fun key => key.channelId == channelId

/-- Some visit of the channel is wanted. -/
def Visited (channels : ChannelInfoMap) (stored : ByType (List ChannelMatch)) (channelId : Nat) :
    Prop :=
  let visits := (infoOf channels channelId).minVisits
  let visited (minVisits : Nat) (stored : List ChannelMatch) :=
    minVisits ≠ 0 ∧ ∃ one ∈ stored, one.channelId = channelId
  visited visits.page stored.page ∨ visited visits.search stored.search ∨
    visited visits.url stored.url ∨ visited visits.urlKeyword stored.urlKeyword

/-- It was stored with a configuration, or for one trigger. -/
def ChannelMatch.Divided (stored : ChannelMatch) : Prop :=
  stored.triggersInChannel ≠ 0 ∨ stored.matchedTriggers = 1

/-- What a visit counts for, next to the one that it should. -/
def ChannelMatch.share (stored : ChannelMatch) : ℚ :=
  if stored.triggersInChannel = 0 then stored.matchedTriggers else 1

@[simp] theorem matchCounterKey_channelId (channelTriggerId channelId : Nat) :
    (matchCounterKey channelTriggerId channelId).channelId = channelId := rfl

variable {stored : ChannelMatch} {positive negative minVisits : Nat} {weight : ℚ}

section
variable (grouped : stored.Grouped positive negative)
include grouped

theorem ChannelMatch.Grouped.others (many : 1 < stored.triggersInChannel) :
    (stored.triggersInChannel : ℚ) - positive ≠ 0 :=
  sub_ne_zero.2 (by exact_mod_cast (grouped.below many).ne')

end

/-! ## The visits of a type -/

section Visits

variable {visits : List ChannelMatch} {channelId : Nat}

section
variable (grouped : ∀ one ∈ visits, ∃ positive negative, one.Grouped positive negative)
include grouped

end

end Visits

/-! ## The channels in order -/

/-- What the iterator has passed is below the channels to come. -/
def Passed (stored pit : List ChannelMatch) (ids : List Nat) : Prop :=
  ∃ passed, stored = passed ++ pit ∧ ∀ one ∈ passed, ∀ channelId ∈ ids, one.channelId < channelId

section Channels

variable {list pit : List ChannelMatch} {channelId : Nat} {ids : List Nat}

variable {channels : ChannelInfoMap} {all : ByType (List ChannelMatch)} {c : Collecting}

section
variable (channels : ChannelInfoMap)

end

end Channels

instance divided_decidable (stored : ChannelMatch) : Decidable stored.Divided :=
  inferInstanceAs (Decidable (_ ∨ _))

/-- Two triggers of channel 7 match on a page. -/
def twoTriggers : ByType MatchMap where
  page := SortedMap.empty.put 7 ⟨[1, 2], by decide, by decide⟩
  search := .empty
  url := .empty
  urlKeyword := .empty

def threeTriggers : ChannelInfoMap :=
  SortedMap.empty.put 7 ⟨⟨60, 60, 60, 60⟩, ⟨1, 0, 2, 0⟩, ⟨[1, 3, 4], [], [], []⟩⟩

end AdServer.RequestInfo.UserTriggerMatch
