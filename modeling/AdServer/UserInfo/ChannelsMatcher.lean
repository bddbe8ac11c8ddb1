import AdServer.Lib.FixedWidth
import AdServer.Lib.MergeUnique
import AdServer.UserInfo.ChannelDictionary
import Mathlib.Order.Nat

/-!
# Matching by the history of a user

What a profile keeps of the visits of a user to channels: the visits of today,
the candidates that need visits of today, and by day the visits before. A
request adds visits, and a history optimisation moves the visits of today among
the days.

The visits in a session and the persistent channels are apart from this. The
fields of the profile have 32 bits, the intervals of the dictionary 64.
-/

namespace AdServer.UserInfo

open AdServer.Lib

structure HTCandidate where
  channelId : Nat
  reqVisits : Nat
  visits : Nat
  weight : Nat
  deriving DecidableEq

structure HistoryMatch where
  channelId : Nat
  weight : Nat
  deriving DecidableEq

structure HistoryVisit where
  channelId : Nat
  visits : Nat
  deriving DecidableEq

structure DaysVisits where
  days : Nat
  visits : Nat
  deriving DecidableEq

structure HistoryChannelInfo where
  channelId : Nat
  daysVisits : List DaysVisits
  deriving DecidableEq

structure ChannelsInfo where
  htCandidates : List HTCandidate := []
  historyMatches : List HistoryMatch := []
  historyVisits : List HistoryVisit := []
  deriving DecidableEq

structure ChannelsProfile where
  createTime : Nat
  historyTime : Nat
  lastRequestTime : Nat
  sections : TriggerType → ChannelsInfo

abbrev HistoryUserProfile := TriggerType → List HistoryChannelInfo

/-- The weights added to channels, in order. -/
abbrev Weights := List (Nat × Nat)

def Weights.of (weights : Weights) (channelId : Nat) : Nat :=
  ((weights.filter fun added => added.1 = channelId).map Prod.snd).sum

structure RequestHTCandidate where
  channelId : Nat
  minVisits : Nat
  reqVisits : Nat
  visits : Nat
  weight : Nat
  deriving DecidableEq

structure RequestChannelsDelta where
  htCandidates : List RequestHTCandidate := []
  historyVisits : List HistoryVisit := []

/-- A value of 32 bits as a signed integer. -/
def asInt (value : Int) : Int :=
  let rest := value % 4294967296
  if rest < 2147483648 then rest else rest - 4294967296

def RequestHTCandidate.toHTCandidate (candidate : RequestHTCandidate) : HTCandidate :=
  ⟨candidate.channelId, candidate.reqVisits, candidate.visits, candidate.weight⟩

/-- `HTCandidateMerge`. -/
def mergeHTCandidate (base : HTCandidate) (delta : RequestHTCandidate) : HTCandidate :=
  let visits := asInt (base.reqVisits + delta.reqVisits - delta.minVisits)
  let reqVisits := (max visits 0).toNat
  ⟨delta.channelId, reqVisits, uint (base.visits + delta.visits : Nat),
    if reqVisits = 0 then delta.weight else 0⟩

/-- `HistoryVisitMerge`. -/
def mergeHistoryVisit (base delta : HistoryVisit) : HistoryVisit :=
  ⟨delta.channelId, uint (base.visits + delta.visits : Nat)⟩

/-- `add_channel_visit_`. -/
def addChannelVisit (channels : ChannelsHashMap) (added : RequestChannelsDelta × Weights)
    (channelId : Nat) : RequestChannelsDelta × Weights :=
  match channels channelId with
  | none => added
  | some pack =>
    let (delta, results) := added
    let weights := if pack.zeroChannel then [(channelId, uint pack.weight)] else []
    let visits : List HistoryVisit :=
      if pack.longIntervals.intervals.isEmpty && pack.todayLongIntervals.intervals.isEmpty then []
      else [⟨channelId, 1⟩]
    let candidates := pack.htCandidateTemplates.map fun it =>
      (⟨channelId, uint it.minVisits, uint it.reqVisits, 1, uint it.weight⟩ : RequestHTCandidate)
    (⟨delta.htCandidates ++ candidates, delta.historyVisits ++ visits⟩, results ++ weights)

/-- `merge_request_channels_delta_`. -/
def mergeRequestChannelsDelta (channels : ChannelsHashMap) (base : Option ChannelsInfo)
    (delta : RequestChannelsDelta) : ChannelsInfo :=
  let candidates := match base with
    | some base => mergeUnique HTCandidate.channelId RequestHTCandidate.channelId id
        RequestHTCandidate.toHTCandidate mergeHTCandidate base.htCandidates delta.htCandidates
    | none => delta.htCandidates.map RequestHTCandidate.toHTCandidate
  let matched := match base with
    | some base => base.historyMatches
    | none => []
  let visits := match base with
    | some base => mergeUnique HistoryVisit.channelId HistoryVisit.channelId id id
        mergeHistoryVisit base.historyVisits delta.historyVisits
    | none => delta.historyVisits
  { htCandidates := candidates.filter fun candidate => (channels candidate.channelId).isSome
    historyMatches := matched.filter fun found => (channels found.channelId).isSome
    historyVisits := visits.filter fun visit => (channels visit.channelId).isSome }

/-- The candidates that lack no visits. -/
def todayLongWeights (candidates : List HTCandidate) : Weights :=
  (candidates.filter fun candidate => candidate.reqVisits = 0).map fun candidate =>
    (candidate.channelId, candidate.weight)

/-- `fill_channels_results_`. -/
def fillChannelsResults (ciw : ChannelsInfo) : Weights :=
  todayLongWeights ciw.htCandidates ++
    ciw.historyMatches.map fun found => (found.channelId, found.weight)

/-- `match_section_`. -/
def matchSection (channels : ChannelsHashMap) (base : Option ChannelsInfo)
    (channelIds : List Nat) : ChannelsInfo × Weights :=
  let (delta, results) := channelIds.foldl (addChannelVisit channels) ({}, [])
  let ciw := mergeRequestChannelsDelta channels base delta
  (ciw, results ++ fillChannelsResults ciw)

structure ChannelIdPack where
  channelIds : TriggerType → List Nat
  changeLastRequest : Bool := true

/-- The profile of a user that has none yet has no create time. -/
def matchChannels (dictionary : ChannelDictionary) (now : Int) (pack : ChannelIdPack)
    (base : Option ChannelsProfile) : ChannelsProfile × Weights :=
  let baseCreateTime := (base.map ChannelsProfile.createTime).getD 0
  let baseHistoryTime := (base.map ChannelsProfile.historyTime).getD 0
  let baseLastRequestTime := (base.map ChannelsProfile.lastRequestTime).getD 0
  let currentTime := max (uint now) baseLastRequestTime
  let found (triggerType : TriggerType) := matchSection (dictionary triggerType)
    (base.map fun p => p.sections triggerType) (pack.channelIds triggerType)
  ({ createTime := if baseCreateTime = 0 then currentTime else baseCreateTime
     historyTime := if baseCreateTime = 0 then currentTime else baseHistoryTime
     lastRequestTime := if pack.changeLastRequest then currentTime else baseLastRequestTime
     sections := fun triggerType => (found triggerType).1 },
    (found .page).2 ++ (found .search).2 ++ (found .url).2 ++ (found .urlKeyword).2)

/-- The visits of a day, some days later. -/
def DaysVisits.shift (days : Nat) (dv : DaysVisits) : DaysVisits :=
  ⟨uint (dv.days + days : Nat), dv.visits⟩

/-- `HistoryChannelInfoConverter`: the days are shifted. -/
def convertInfo (days : Nat) (info : HistoryChannelInfo) : HistoryChannelInfo :=
  { info with daysVisits := info.daysVisits.map (DaysVisits.shift days) }

def convertVisit (days : Nat) (visit : HistoryVisit) : HistoryChannelInfo :=
  ⟨visit.channelId, [⟨uint days, visit.visits⟩]⟩

/-- `HistoryChannelInfoHistoryVisitsMerge`: the visits of today join those of the
day, if it has any. -/
def mergeInfo (days : Nat) (left : HistoryChannelInfo) (right : HistoryVisit) :
    HistoryChannelInfo :=
  { left with daysVisits :=
      match left.daysVisits with
      | [] => [⟨uint days, right.visits⟩]
      | first :: rest =>
        if first.days = 0 then
          ⟨uint days, uint (right.visits + first.visits : Nat)⟩ :: rest.map (DaysVisits.shift days)
        else ⟨uint days, right.visits⟩ :: (first :: rest).map (DaysVisits.shift days) }

/-- How many days the intervals of a channel look back. -/
def ChannelIntervalsPack.maxDays (pack : ChannelIntervalsPack) : Nat :=
  max pack.longIntervals.maxTimeTo pack.todayLongIntervals.maxTimeTo / secInDay

/-- `HistoryChannelInfoCleaner`: the days no interval looks back to go. -/
def cleanInfo (channels : ChannelsHashMap) (info : HistoryChannelInfo) : HistoryChannelInfo :=
  { info with daysVisits :=
      match channels info.channelId with
      | none => []
      | some pack => info.daysVisits.filter fun dv => decide (dv.days < pack.maxDays) }

/-- `HistoryChannelInfoFilter`. -/
def keepsInfo (channels : ChannelsHashMap) (info : HistoryChannelInfo) : Bool :=
  (channels info.channelId).isSome && !info.daysVisits.isEmpty

/-- The history with the visits of today, its days shifted. -/
def mergeHistory (days : Nat) (history : List HistoryChannelInfo) (visits : List HistoryVisit) :
    List HistoryChannelInfo :=
  if history.isEmpty then visits.map (convertVisit days)
  else mergeUnique HistoryChannelInfo.channelId HistoryVisit.channelId (convertInfo days)
    (convertVisit days) (mergeInfo days) history visits

/-- The visits of the days of an interval. -/
def intervalVisits (interval : ChannelInterval) (daysVisits : List DaysVisits) : Nat :=
  ((daysVisits.filter fun dv => decide (interval.timeFrom / secInDay ≤ dv.days ∧
    dv.days < interval.timeTo / secInDay)).map DaysVisits.visits).sum

/-- `history_matched_`. -/
def historyMatched (channels : ChannelsHashMap) (info : HistoryChannelInfo) : Nat :=
  match channels info.channelId with
  | none => 0
  | some pack => (pack.longIntervals.intervals.map fun interval =>
      if interval.minVisits ≤ intervalVisits interval info.daysVisits then interval.weight
      else 0).sum

/-- The candidate of an interval with visits before today. -/
def historyCandidate (channelId : Nat) (interval : ChannelInterval) (foundVisits : Nat) :
    HTCandidate :=
  let reqVisits := uint
    (if foundVisits < interval.minVisits then interval.minVisits - foundVisits else 0 : Nat)
  ⟨channelId, reqVisits, uint foundVisits, if reqVisits ≠ 0 then 0 else uint interval.weight⟩

/-- The candidates of the intervals left, `before` being those passed by: from
the first interval with visits on, all intervals have one. -/
def fillCandidates (info : HistoryChannelInfo) (before : List ChannelInterval)
    (insertAllInts : Bool) : List ChannelInterval → List HTCandidate
  | [] => []
  | interval :: rest =>
    let foundVisits := intervalVisits interval info.daysVisits
    if foundVisits ≠ 0 ∨ insertAllInts then
      (if insertAllInts then [] else before.map fun passed =>
          (⟨info.channelId, uint passed.minVisits, 0, 0⟩ : HTCandidate)) ++
        historyCandidate info.channelId interval foundVisits ::
          fillCandidates info (before ++ [interval]) true rest
    else fillCandidates info (before ++ [interval]) false rest

/-- `fill_history_candidate_visits_`. -/
def fillHistoryCandidateVisits (channels : ChannelsHashMap) (info : HistoryChannelInfo) :
    List HTCandidate :=
  match channels info.channelId with
  | none => []
  | some pack => fillCandidates info [] false pack.todayLongIntervals.intervals

/-- `fill_history_candidates_`. -/
def fillHistoryCandidates (channels : ChannelsHashMap) (history : List HistoryChannelInfo) :
    ChannelsInfo where
  htCandidates := history.flatMap (fillHistoryCandidateVisits channels)
  historyMatches := (history.filter fun info => historyMatched channels info ≠ 0).map fun info =>
    ⟨info.channelId, uint (historyMatched channels info)⟩
  historyVisits := []

/-- `history_optimize_`. -/
def historyOptimizeSection (channels : ChannelsHashMap) (days : Nat)
    (history : List HistoryChannelInfo) (info : ChannelsInfo) :
    ChannelsInfo × List HistoryChannelInfo :=
  let merged := ((mergeHistory days history info.historyVisits).map (cleanInfo channels)).filter
    (keepsInfo channels)
  (fillHistoryCandidates channels merged, merged)

/-- The day of a time in the zone of the user: the division is unsigned. -/
def dayOf (gmtOffset : Int) (time : Nat) : Int := (time + gmtOffset) % 2 ^ 64 / secInDay

/-- `history_optimize`. -/
def historyOptimize (dictionary : ChannelDictionary) (gmtOffset now : Int)
    (profile : ChannelsProfile) (history : HistoryUserProfile) :
    ChannelsProfile × HistoryUserProfile :=
  let currentTime := max (uint now) profile.lastRequestTime
  let days := uint (dayOf gmtOffset currentTime - dayOf gmtOffset profile.historyTime)
  let optimized (triggerType : TriggerType) := historyOptimizeSection (dictionary triggerType)
    days (history triggerType) (profile.sections triggerType)
  ({ profile with
      historyTime := currentTime
      sections := fun triggerType => (optimized triggerType).1 },
    fun triggerType => (optimized triggerType).2)

end AdServer.UserInfo
