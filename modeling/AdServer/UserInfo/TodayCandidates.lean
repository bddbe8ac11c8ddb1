import AdServer.UserInfo.ChannelsMatcher

/-!
# The intervals that begin today

The candidates of a channel are made of its history when that is optimised, or of
its first visit, and each further visit changes them.
-/

namespace AdServer.UserInfo

open AdServer.Lib

variable {lack visits : Nat} {base : ChannelsInfo}

section Interval

variable (channelId : Nat) (interval : ChannelInterval)

/-- What a visit brings for the interval. -/
def visitDelta : RequestHTCandidate :=
  let template := htCandidateTemplate interval
  ⟨channelId, uint template.minVisits, uint template.reqVisits, 1, uint template.weight⟩

/-- The candidate after one more visit. -/
def visitCandidate (candidate : HTCandidate) : HTCandidate :=
  mergeHTCandidate candidate (visitDelta channelId interval)

/-- The visits still lacking after one more. -/
def lackAfter (lack : Nat) : Nat := (max (asInt ((lack : Int) - 1)) 0).toNat

/-- The candidate of the interval evaluated at once. -/
def batchCandidate (visits : Nat) : HTCandidate :=
  let reqVisits := interval.minVisits - visits
  ⟨channelId, reqVisits, visits, if reqVisits = 0 then interval.weight else 0⟩

theorem lackAfter_le (le : lack ≤ 2147483648) : lackAfter lack = lack - 1 := by
  unfold lackAfter asInt
  simp only []
  split <;> omega

theorem lackAfter_lt (lack : Nat) : lackAfter lack ≤ 2147483647 := by
  unfold lackAfter asInt
  simp only []
  split <;> omega

theorem iterate_lackAfter (le : lack ≤ 2147483648) (visits : Nat) :
    lackAfter^[visits] lack = lack - visits := by
  induction visits generalizing lack with
  | zero => rfl
  | succ visits ih =>
    rw [Function.iterate_succ_apply, lackAfter_le le, ih (by omega)]
    omega

/-- The visits lacking are counted down right, unless there are so many that they
do not fit a signed integer. -/
theorem iterate_lackAfter_iff {lack visits : Nat} (few : visits + 1 < 4294967296) :
    lackAfter^[visits + 1] (uint lack) = lack - (visits + 1) ↔
      lack ≤ 2147483648 ∨ lack ≤ visits + 1 := by
  by_cases fits : lack ≤ 2147483648
  · simp [uint_natCast (show lack < 2 ^ 32 by omega), iterate_lackAfter fits, fits]
  · have low := lackAfter_lt (uint lack)
    have cut : uint lack ≤ lack ∧ lackAfter (uint lack) ≤ uint lack - 1 := by
      unfold lackAfter asInt uint
      simp only []
      split <;> omega
    rw [Function.iterate_succ_apply, iterate_lackAfter (by omega)]
    omega

variable {channelId interval}

theorem visitCandidate_eq (visited : 1 ≤ interval.minVisits) (candidate : HTCandidate) :
    visitCandidate channelId interval candidate =
      ⟨channelId, lackAfter candidate.reqVisits, uint (candidate.visits + 1 : Nat),
        if lackAfter candidate.reqVisits = 0 then uint (htCandidateTemplate interval).weight
        else 0⟩ := by
  have missing : asInt ((candidate.reqVisits : Int) + uint ((interval.minVisits - 1 : Nat) : Int) -
      uint (interval.minVisits : Int)) = asInt ((candidate.reqVisits : Int) - 1) := by
    have same : ((candidate.reqVisits : Int) + uint ((interval.minVisits - 1 : Nat) : Int) -
        uint (interval.minVisits : Int)) % 4294967296 =
        ((candidate.reqVisits : Int) - 1) % 4294967296 := by
      unfold uint
      omega
    rw [asInt, asInt, same]
  simp only [visitCandidate, mergeHTCandidate, visitDelta, htCandidateTemplate, missing]
  rfl

theorem iterate_visitCandidate (visited : 1 ≤ interval.minVisits) (candidate : HTCandidate)
    (visits : Nat) : (visitCandidate channelId interval)^[visits + 1] candidate =
      ⟨channelId, lackAfter^[visits + 1] candidate.reqVisits,
        uint (candidate.visits + (visits + 1) : Nat),
        if lackAfter^[visits + 1] candidate.reqVisits = 0 then
          uint (htCandidateTemplate interval).weight else 0⟩ := by
  induction visits with
  | zero => exact visitCandidate_eq visited candidate
  | succ visits ih =>
    have counted : uint (uint (candidate.visits + (visits + 1) : Nat) + 1 : Nat) =
        uint (candidate.visits + (visits + 1 + 1) : Nat) := by
      unfold uint
      omega
    rw [Function.iterate_succ_apply', ih, visitCandidate_eq visited]
    simp only [Function.iterate_succ_apply' lackAfter (visits + 1), counted]

/-- Whether the candidate is right after the visits: `stored` tells whether it
was made of the history, with `found` visits, and not of the first visit. -/
def ChannelInterval.CountsRight (interval : ChannelInterval) (stored : Bool) (found visits : Nat) :
    Prop :=
  let merged := if stored then visits else visits - 1
  let lack := interval.minVisits - if stored then found else 1
  found + visits < 4294967296 ∧
    (merged = 0 ∧ lack < 4294967296 ∨ lack ≤ 2147483648 ∨ lack ≤ merged) ∧
    (interval.minVisits ≤ found + visits →
      interval.minVisits = 1 ∧ interval.weight < 4294967296 ∨ interval.weight = 0)

instance instDecidableCountsRight (interval : ChannelInterval) (stored : Bool)
    (found visits : Nat) : Decidable (interval.CountsRight stored found visits) :=
  inferInstanceAs (Decidable (_ ∧ _))

section
variable (visited : 1 ≤ interval.minVisits)
include visited

theorem templateWeight_iff :
    uint (htCandidateTemplate interval).weight = interval.weight ↔
      interval.minVisits = 1 ∧ interval.weight < 4294967296 ∨ interval.weight = 0 := by
  simp only [htCandidateTemplate, uint]
  split <;> omega

theorem countedDown_iff {candidate : HTCandidate} (found : Nat)
    (lack_eq : candidate.reqVisits = uint (interval.minVisits - found : Nat))
    (visits_eq : candidate.visits = uint found) (visits : Nat) :
    (visitCandidate channelId interval)^[visits + 1] candidate =
        batchCandidate channelId interval (found + (visits + 1)) ↔
      found + (visits + 1) < 4294967296 ∧
        (interval.minVisits - found ≤ 2147483648 ∨ interval.minVisits - found ≤ visits + 1) ∧
        (interval.minVisits ≤ found + (visits + 1) →
          interval.minVisits = 1 ∧ interval.weight < 4294967296 ∨ interval.weight = 0) := by
  have sum : uint (uint found + (visits + 1) : Nat) = uint (found + (visits + 1) : Nat) := by
    unfold uint
    omega
  rw [iterate_visitCandidate visited, batchCandidate, HTCandidate.mk.injEq, lack_eq, visits_eq, sum]
  have rest : interval.minVisits - found - (visits + 1) =
      interval.minVisits - (found + (visits + 1)) := by omega
  have weight := templateWeight_iff visited
  constructor
  · rintro ⟨-, lack, counted, weight_eq⟩
    have fits := uint_eq_iff.1 counted
    refine ⟨fits, (iterate_lackAfter_iff (by omega)).1 (lack.trans rest.symm), fun enough => ?_⟩
    have none_lacking : interval.minVisits - (found + (visits + 1)) = 0 := by omega
    rw [lack, if_pos none_lacking, if_pos none_lacking] at weight_eq
    exact weight.1 weight_eq
  · rintro ⟨fits, range, weight_right⟩
    have lack := ((iterate_lackAfter_iff (by omega)).2 range).trans rest
    refine ⟨rfl, lack, uint_natCast fits, ?_⟩
    rw [lack]
    by_cases none_lacking : interval.minVisits - (found + (visits + 1)) = 0
    · rw [if_pos none_lacking, if_pos none_lacking]
      exact weight.2 (weight_right (by omega))
    · rw [if_neg none_lacking, if_neg none_lacking]

theorem storedCandidate_iff (found : Nat) (some_visit : 0 < visits) :
    (visitCandidate channelId interval)^[visits] (historyCandidate channelId interval found) =
        batchCandidate channelId interval (found + visits) ↔
      interval.CountsRight true found visits := by
  obtain ⟨before, rfl⟩ : ∃ before, visits = before + 1 := ⟨visits - 1, by omega⟩
  rw [countedDown_iff visited found]
  · simp [ChannelInterval.CountsRight]
  · simp only [historyCandidate]
    congr 2
    split <;> omega
  · rfl

theorem freshCandidate_iff (some_visit : 0 < visits) :
    (visitCandidate channelId interval)^[visits - 1]
        (visitDelta channelId interval).toHTCandidate =
        batchCandidate channelId interval (0 + visits) ↔
      interval.CountsRight false 0 visits := by
  obtain ⟨before, rfl⟩ : ∃ before, visits = before + 1 := ⟨visits - 1, by omega⟩
  cases before with
  | zero =>
    rw [Nat.add_sub_cancel, Function.iterate_zero, id_eq, visitDelta,
      RequestHTCandidate.toHTCandidate, batchCandidate, HTCandidate.mk.injEq]
    simp only [htCandidateTemplate, ChannelInterval.CountsRight, Bool.false_eq_true, if_false,
      Nat.zero_add, Nat.sub_self, true_and]
    by_cases one : interval.minVisits - 1 = 0
    · simp only [one, if_true, uint]
      omega
    · simp only [if_neg one, uint]
      omega
  | succ before =>
    rw [Nat.add_sub_cancel, show 0 + (before + 1 + 1) = 1 + (before + 1) by omega]
    rw [countedDown_iff visited 1]
    · simp only [ChannelInterval.CountsRight, Bool.false_eq_true, if_false, Nat.zero_add]
      rw [show 1 + (before + 1) = before + 1 + 1 by omega]
      simp
    · rfl
    · rfl

end

end Interval

/-! ## One section -/

/-- The candidates a request has for a channel. -/
def requestCandidates (channels : ChannelsHashMap) (channelId : Nat) : List RequestHTCandidate :=
  match channels channelId with
  | none => []
  | some pack => pack.htCandidateTemplates.map fun it =>
      ⟨channelId, uint it.minVisits, uint it.reqVisits, 1, uint it.weight⟩

/-- The visit a request counts for a channel. -/
def requestVisits (channels : ChannelsHashMap) (channelId : Nat) : List HistoryVisit :=
  match channels channelId with
  | none => []
  | some pack =>
    if pack.longIntervals.intervals.isEmpty && pack.todayLongIntervals.intervals.isEmpty then []
    else [⟨channelId, 1⟩]

section
variable (channels : ChannelsHashMap)

theorem foldl_addChannelVisit (channelIds : List Nat) (added : RequestChannelsDelta × Weights) :
    (channelIds.foldl (addChannelVisit channels) added).1.htCandidates =
        added.1.htCandidates ++ channelIds.flatMap (requestCandidates channels) ∧
      (channelIds.foldl (addChannelVisit channels) added).1.historyVisits =
        added.1.historyVisits ++ channelIds.flatMap (requestVisits channels) := by
  induction channelIds generalizing added with
  | nil => simp
  | cons channelId rest ih =>
    obtain ⟨candidates, visits⟩ := ih (addChannelVisit channels added channelId)
    rw [List.foldl_cons, candidates, visits, List.flatMap_cons, List.flatMap_cons,
      ← List.append_assoc, ← List.append_assoc]
    unfold addChannelVisit requestCandidates requestVisits
    cases channels channelId <;> simp

theorem matchSection_htCandidates (base : ChannelsInfo) (channelIds : List Nat) :
    (matchSection channels (some base) channelIds).1.htCandidates =
      (mergeUnique HTCandidate.channelId RequestHTCandidate.channelId id
        RequestHTCandidate.toHTCandidate mergeHTCandidate base.htCandidates
        (channelIds.flatMap (requestCandidates channels))).filter
          fun candidate => (channels candidate.channelId).isSome := by
  have delta := (foldl_addChannelVisit channels channelIds ({}, [])).1
  rw [List.nil_append] at delta
  simp only [matchSection, mergeRequestChannelsDelta]
  rw [delta]

theorem channelId_requestCandidates (channelId : Nat) :
    ∀ candidate ∈ requestCandidates channels channelId, candidate.channelId = channelId := by
  unfold requestCandidates
  split
  · simp
  · intro candidate mem
    obtain ⟨it, -, rfl⟩ := List.mem_map.1 mem
    rfl

end

/-- Candidates are kept by channel. -/
def ByChannel (candidates : List HTCandidate) : Prop :=
  candidates.Pairwise fun left right => left.channelId ≤ right.channelId

def candidatesOf (channelId : Nat) (candidates : List HTCandidate) : List HTCandidate :=
  candidates.filter fun candidate => candidate.channelId = channelId

section Section

variable {channels : ChannelsHashMap} {channelIds : List Nat}
  (sorted : channelIds.Pairwise (· < ·))

include sorted

theorem byChannel_matchSection (byChannel : ByChannel base.htCandidates) :
    ByChannel (matchSection channels (some base) channelIds).1.htCandidates := by
  rw [matchSection_htCandidates]
  apply List.Pairwise.filter
  apply pairwise_le_mergeUnique
  · exact fun _ => rfl
  · exact fun _ => rfl
  · exact fun _ _ _ => rfl
  · exact byChannel
  · exact pairwise_le_flatMap (channelId_requestCandidates channels) sorted

variable {channelId : Nat} {pack : ChannelIntervalsPack}
  (found : channels channelId = some pack)
  (templates : pack.htCandidateTemplates = pack.todayLongIntervals.intervals.map htCandidateTemplate)

include found templates

theorem candidatesOf_matchSection (byChannel : ByChannel base.htCandidates) :
    candidatesOf channelId (matchSection channels (some base) channelIds).1.htCandidates =
      if channelId ∈ channelIds then
        mergeUnique HTCandidate.channelId RequestHTCandidate.channelId id
          RequestHTCandidate.toHTCandidate mergeHTCandidate
          (candidatesOf channelId base.htCandidates)
          (pack.todayLongIntervals.intervals.map (visitDelta channelId))
      else candidatesOf channelId base.htCandidates := by
  have delta_sorted := pairwise_le_flatMap (channelId_requestCandidates channels) sorted
  have delta_own := filter_flatMap_run (channelId_requestCandidates channels) channelId sorted
  have own : (mergeUnique HTCandidate.channelId RequestHTCandidate.channelId id
      RequestHTCandidate.toHTCandidate mergeHTCandidate base.htCandidates
      (channelIds.flatMap (requestCandidates channels))).filter
        (fun candidate => candidate.channelId = channelId) =
      mergeUnique HTCandidate.channelId RequestHTCandidate.channelId id
        RequestHTCandidate.toHTCandidate mergeHTCandidate
        (base.htCandidates.filter fun candidate => candidate.channelId = channelId)
        ((channelIds.flatMap (requestCandidates channels)).filter
          fun candidate => candidate.channelId = channelId) := by
    apply filter_mergeUnique
    · exact fun _ => rfl
    · exact fun _ => rfl
    · exact fun _ _ _ => rfl
    · exact byChannel
    · exact delta_sorted
  have known (candidates : List HTCandidate) :
      candidatesOf channelId (candidates.filter fun candidate =>
        (channels candidate.channelId).isSome) = candidatesOf channelId candidates := by
    rw [candidatesOf, candidatesOf, List.filter_filter]
    apply List.filter_congr
    intro candidate _
    by_cases same : candidate.channelId = channelId <;> simp [same, found]
  rw [matchSection_htCandidates, known, candidatesOf, own, delta_own]
  by_cases visited : channelId ∈ channelIds
  · have first : channelIds.find? (fun other => other = channelId) = some channelId := by
      cases found_id : channelIds.find? (fun other => other = channelId) with
      | none => simpa using List.find?_eq_none.1 found_id channelId visited
      | some other =>
        have same := List.find?_some found_id
        simp only [decide_eq_true_eq] at same
        rw [same]
    rw [if_pos visited, first, Option.map_some, Option.getD_some, requestCandidates, found]
    simp only []
    rw [templates, List.map_map]
    rfl
  · have none_found : channelIds.find? (fun other => other = channelId) = none := by
      rw [List.find?_eq_none]
      intro other mem same
      simp only [decide_eq_true_eq] at same
      exact visited (same ▸ mem)
    rw [if_neg visited, none_found, Option.map_none, Option.getD_none, mergeUnique_nil_right,
      List.map_id]
    rfl

end Section

section History

variable {info : HistoryChannelInfo} {intervals : List ChannelInterval}

theorem fillCandidates_true (before : List ChannelInterval) :
    fillCandidates info before true intervals = intervals.map fun interval =>
      historyCandidate info.channelId interval (intervalVisits interval info.daysVisits) := by
  induction intervals generalizing before with
  | nil => rfl
  | cons interval rest ih =>
    rw [fillCandidates, if_pos (Or.inr rfl), ih]
    rfl

/-- The candidate as a visit finds it: its weight is not read. -/
def HTCandidate.weightless (candidate : HTCandidate) : HTCandidate := { candidate with weight := 0 }

theorem mergeHTCandidate_weightless (candidate : HTCandidate) (delta : RequestHTCandidate) :
    mergeHTCandidate candidate.weightless delta = mergeHTCandidate candidate delta := rfl

/-- Either no interval has visits and there is no candidate, or all intervals have
one. -/
theorem fillCandidates_false {before : List ChannelInterval}
    (passed : ∀ interval ∈ before, intervalVisits interval info.daysVisits = 0) :
    (fillCandidates info before false intervals).map HTCandidate.weightless =
      if intervals.any fun interval => intervalVisits interval info.daysVisits ≠ 0 then
        (before ++ intervals).map fun interval => (historyCandidate info.channelId interval
          (intervalVisits interval info.daysVisits)).weightless
      else [] := by
  induction intervals generalizing before with
  | nil => rfl
  | cons interval rest ih =>
    rw [fillCandidates]
    by_cases none_found : intervalVisits interval info.daysVisits = 0
    · have step := @ih (before ++ [interval]) (by
        intro other mem
        obtain old | new := List.mem_append.1 mem
        · exact passed other old
        · exact List.mem_singleton.1 new ▸ none_found)
      simp only [none_found, ne_eq, not_true_eq_false, Bool.false_eq_true, or_self, if_false,
        List.any_cons, decide_false, Bool.false_or]
      rw [step]
      simp
    · have passed_by : (before.map fun passed =>
          (⟨info.channelId, uint passed.minVisits, 0, 0⟩ : HTCandidate)).map
            HTCandidate.weightless =
          before.map fun interval => (historyCandidate info.channelId interval
            (intervalVisits interval info.daysVisits)).weightless := by
        rw [List.map_map]
        apply List.map_congr_left
        intro other mem
        rw [passed other mem]
        have lacking : (if 0 < other.minVisits then other.minVisits - 0 else 0) =
            other.minVisits := by split <;> omega
        simp only [Function.comp, HTCandidate.weightless, historyCandidate, lacking]
        rfl
      simp only [ne_eq, none_found, not_false_eq_true, Bool.false_eq_true, or_false, if_true,
        if_false, List.any_cons, decide_true, Bool.true_or]
      rw [fillCandidates_true, List.map_append, passed_by, List.map_append, List.map_cons,
        List.map_cons, List.map_map]
      rfl

end History

/-- The visits the history has of a channel in an interval. -/
def storedVisits (history : List HistoryChannelInfo) (channelId : Nat)
    (interval : ChannelInterval) : Nat :=
  intervalVisits interval
    (((history.find? fun info => info.channelId = channelId).map
      HistoryChannelInfo.daysVisits).getD [])

theorem channelId_fillCandidates (info : HistoryChannelInfo) (before : List ChannelInterval)
    (insertAllInts : Bool) (intervals : List ChannelInterval) :
    ∀ candidate ∈ fillCandidates info before insertAllInts intervals,
      candidate.channelId = info.channelId := by
  induction intervals generalizing before insertAllInts with
  | nil => simp [fillCandidates]
  | cons interval rest ih =>
    intro candidate mem
    rw [fillCandidates] at mem
    split at mem
    · obtain passed | now := List.mem_append.1 mem
      · split at passed
        · cases passed
        · obtain ⟨_, -, rfl⟩ := List.mem_map.1 passed
          rfl
      · obtain rfl | later := List.mem_cons.1 now
        · rfl
        · exact ih _ _ candidate later
    · exact ih _ _ candidate mem

theorem channelId_fillHistory (channels : ChannelsHashMap) (info : HistoryChannelInfo) :
    ∀ candidate ∈ fillHistoryCandidateVisits channels info,
      candidate.channelId = info.channelId := by
  unfold fillHistoryCandidateVisits
  split
  · simp
  · exact channelId_fillCandidates info [] false _

variable {channelId : Nat} {intervals : List ChannelInterval}
  {candidate : ChannelInterval → HTCandidate}

theorem candidatesOf_fillHistory {channels : ChannelsHashMap} {history : List HistoryChannelInfo}
    (sorted : history.Pairwise fun left right => left.channelId < right.channelId)
    {pack : ChannelIntervalsPack} (found : channels channelId = some pack) :
    (candidatesOf channelId (fillHistoryCandidates channels history).htCandidates).map
        HTCandidate.weightless =
      if pack.todayLongIntervals.intervals.any fun interval =>
          storedVisits history channelId interval ≠ 0 then
        pack.todayLongIntervals.intervals.map fun interval =>
          (historyCandidate channelId interval (storedVisits history channelId interval)).weightless
      else [] := by
  simp only [candidatesOf, fillHistoryCandidates]
  rw [filter_flatMap_run (channelId_fillHistory channels) channelId sorted]
  unfold storedVisits
  cases record : history.find? (fun info => info.channelId = channelId) with
  | none => simp [intervalVisits]
  | some info =>
    have same : info.channelId = channelId := by simpa using List.find?_some record
    subst same
    simp only [Option.map_some, Option.getD_some, fillHistoryCandidateVisits, found]
    rw [fillCandidates_false (by simp)]
    rfl

/-! ## Requests after an optimisation -/

/-- The candidates of a channel after a visit to it. -/
def afterVisit (channelId : Nat) (intervals : List ChannelInterval)
    (candidates : List HTCandidate) : List HTCandidate :=
  mergeUnique HTCandidate.channelId RequestHTCandidate.channelId id
    RequestHTCandidate.toHTCandidate mergeHTCandidate candidates
    (intervals.map (visitDelta channelId))

theorem afterVisit_nil (channelId : Nat) (intervals : List ChannelInterval) :
    afterVisit channelId intervals [] =
      intervals.map fun interval => (visitDelta channelId interval).toHTCandidate := by
  rw [afterVisit, mergeUnique_nil, List.map_map]
  rfl

section
variable (own : ∀ interval, (candidate interval).channelId = channelId)
include own

theorem afterVisit_weightless {candidates : List HTCandidate}
    (start : candidates.map HTCandidate.weightless =
      intervals.map fun interval => (candidate interval).weightless) :
    afterVisit channelId intervals candidates =
      intervals.map fun interval => visitCandidate channelId interval (candidate interval) := by
  rw [afterVisit, mergeUnique_same channelId]
  · have read : List.zipWith mergeHTCandidate candidates (intervals.map (visitDelta channelId)) =
        List.zipWith mergeHTCandidate (candidates.map HTCandidate.weightless)
          (intervals.map (visitDelta channelId)) := by
      rw [List.zipWith_map_left]
      simp only [mergeHTCandidate_weightless]
    rw [read, start, List.zipWith_map_left, List.zipWith_map_right, List.zipWith_self]
    simp only [mergeHTCandidate_weightless, visitCandidate]
  · intro other mem
    have mem' := List.mem_map_of_mem (f := HTCandidate.weightless) mem
    rw [start] at mem'
    obtain ⟨interval, -, same⟩ := List.mem_map.1 mem'
    exact (congrArg HTCandidate.channelId same).symm.trans (own interval)
  · intro other mem
    obtain ⟨interval, -, rfl⟩ := List.mem_map.1 mem
    rfl
  · simpa using congrArg List.length start

theorem iterate_afterVisit (visits : Nat) :
    (afterVisit channelId intervals)^[visits] (intervals.map candidate) =
      intervals.map fun interval =>
        (visitCandidate channelId interval)^[visits] (candidate interval) := by
  induction visits generalizing candidate with
  | zero => rfl
  | succ visits ih =>
    rw [Function.iterate_succ_apply, afterVisit_weightless own (List.map_map ..), ih fun _ => rfl]
    rfl

end

/-- Requests made one after the other, with their times. -/
def matchRequests (dictionary : ChannelDictionary) (requests : List (Int × ChannelIdPack))
    (profile : ChannelsProfile) : ChannelsProfile :=
  requests.foldl (fun profile request =>
    (matchChannels dictionary request.1 request.2 (some profile)).1) profile

/-- How many of the requests visit the channel. -/
def visitsTo (triggerType : TriggerType) (channelId : Nat)
    (requests : List (Int × ChannelIdPack)) : Nat :=
  requests.countP fun request => channelId ∈ request.2.channelIds triggerType

section Requests

variable {dictionary : ChannelDictionary} {triggerType : TriggerType} {channelId : Nat}
  {pack : ChannelIntervalsPack}

/-- Requests change the candidates of a channel only by the visits to it. -/
theorem candidates_requests (found : dictionary triggerType channelId = some pack)
    (templates : pack.htCandidateTemplates =
      pack.todayLongIntervals.intervals.map htCandidateTemplate)
    {requests : List (Int × ChannelIdPack)}
    (sorted : ∀ request ∈ requests, (request.2.channelIds triggerType).Pairwise (· < ·))
    {profile : ChannelsProfile} (byChannel : ByChannel (profile.sections triggerType).htCandidates) :
    candidatesOf channelId
        ((matchRequests dictionary requests profile).sections triggerType).htCandidates =
      (afterVisit channelId pack.todayLongIntervals.intervals)^[visitsTo triggerType channelId requests]
        (candidatesOf channelId (profile.sections triggerType).htCandidates) := by
  induction requests generalizing profile with
  | nil => rfl
  | cons request rest ih =>
    have request_sorted := sorted request (by simp)
    have section_eq : (matchChannels dictionary request.1 request.2 (some profile)).1.sections
        triggerType = (matchSection (dictionary triggerType) (some (profile.sections triggerType))
          (request.2.channelIds triggerType)).1 := rfl
    have step := candidatesOf_matchSection request_sorted found templates byChannel
    have byChannel' : ByChannel ((matchChannels dictionary request.1 request.2
        (some profile)).1.sections triggerType).htCandidates :=
      byChannel_matchSection request_sorted byChannel
    have later := ih (fun other mem => sorted other (by simp [mem])) byChannel'
    rw [matchRequests, List.foldl_cons]
    refine later.trans ?_
    rw [section_eq, step, visitsTo, visitsTo, List.countP_cons]
    by_cases visited : channelId ∈ request.2.channelIds triggerType
    · rw [if_pos visited, if_pos (by simpa using visited), Function.iterate_succ_apply]
      rfl
    · rw [if_neg visited, if_neg (by simpa using visited)]
      rfl

theorem of_todayLongWeights (candidates : List HTCandidate) :
    (todayLongWeights candidates).of channelId =
      (((candidatesOf channelId candidates).filter fun candidate =>
        candidate.reqVisits = 0).map HTCandidate.weight).sum := by
  rw [Weights.of, todayLongWeights, candidatesOf, List.filter_map, List.map_map, List.filter_filter,
    List.filter_filter]
  congr 2
  apply List.filter_congr
  intro candidate _
  exact Bool.and_comm _ _

theorem of_batch {intervals : List ChannelInterval} {visits : ChannelInterval → Nat}
    {candidates : List HTCandidate} (batch : candidatesOf channelId candidates =
      intervals.map fun interval => batchCandidate channelId interval (visits interval)) :
    (todayLongWeights candidates).of channelId =
      ((intervals.filter fun interval => interval.minVisits ≤ visits interval).map
        ChannelInterval.weight).sum := by
  rw [of_todayLongWeights, batch, List.filter_map, List.map_map]
  have same : intervals.filter ((fun candidate : HTCandidate => decide (candidate.reqVisits = 0)) ∘
      fun interval => batchCandidate channelId interval (visits interval)) =
      intervals.filter fun interval => decide (interval.minVisits ≤ visits interval) := by
    apply List.filter_congr
    intro interval _
    simp only [Function.comp, batchCandidate]
    exact decide_eq_decide.2 (by omega)
  rw [same]
  congr 1
  apply List.map_congr_left
  intro interval mem
  have enough := (List.mem_filter.1 mem).2
  simp only [decide_eq_true_eq] at enough
  simp only [Function.comp, batchCandidate]
  rw [if_pos (by omega)]

end Requests

/-- Candidates counted down by visits, against the intervals evaluated at once. -/
theorem iterate_afterVisit_iff (channelId : Nat) {today : List ChannelInterval}
    (visited : ∀ interval ∈ today, 1 ≤ interval.minVisits) (stored : ChannelInterval → Nat)
    {candidates : List HTCandidate} (start : candidates.map HTCandidate.weightless =
      if today.any fun interval => stored interval ≠ 0 then
        today.map fun interval => (historyCandidate channelId interval (stored interval)).weightless
      else [])
    (some_visit : 0 < visits) :
    (afterVisit channelId today)^[visits] candidates =
        today.map (fun interval => batchCandidate channelId interval (stored interval + visits)) ↔
      ∀ interval ∈ today, interval.CountsRight
        (today.any fun interval => stored interval ≠ 0) (stored interval) visits := by
  obtain ⟨others, rfl⟩ : ∃ others, visits = others + 1 := ⟨visits - 1, by omega⟩
  cases has_stored : today.any fun interval => stored interval ≠ 0 with
  | true =>
    have own (interval : ChannelInterval) :
        (historyCandidate channelId interval (stored interval)).channelId = channelId := rfl
    have counted (interval : ChannelInterval) : (visitCandidate channelId interval
        (historyCandidate channelId interval (stored interval))).channelId = channelId := rfl
    rw [has_stored, if_pos rfl] at start
    rw [Function.iterate_succ_apply, afterVisit_weightless own start, iterate_afterVisit counted,
      List.map_inj_left]
    exact forall₂_congr fun interval mem =>
      storedCandidate_iff (visited interval mem) (stored interval) some_visit
  | false =>
    rw [has_stored, if_neg Bool.false_ne_true, List.map_eq_nil_iff] at start
    subst start
    have own (interval : ChannelInterval) :
        ((visitDelta channelId interval).toHTCandidate).channelId = channelId := rfl
    rw [Function.iterate_succ_apply, afterVisit_nil,
      iterate_afterVisit own, List.map_inj_left]
    refine forall₂_congr fun interval mem => ?_
    have none_stored : stored interval = 0 := by
      have absent := List.any_eq_false.1 has_stored interval mem
      simpa using absent
    rw [none_stored]
    exact freshCandidate_iff (visited interval mem) some_visit

/-- The candidates of a channel are those the visits of its intervals give at once,
one for each interval, and add the weights of the intervals with enough visits. -/
def MatchesBatch (channelId : Nat) (today : List ChannelInterval) (stored : ChannelInterval → Nat)
    (visits : Nat) (candidates : List HTCandidate) : Prop :=
  candidatesOf channelId candidates =
      today.map (fun interval => batchCandidate channelId interval (stored interval + visits)) ∧
    (todayLongWeights candidates).of channelId = ((today.filter fun interval =>
      interval.minVisits ≤ stored interval + visits).map ChannelInterval.weight).sum

instance instDecidableMatchesBatch (channelId : Nat) (today : List ChannelInterval)
    (stored : ChannelInterval → Nat) (visits : Nat) (candidates : List HTCandidate) :
    Decidable (MatchesBatch channelId today stored visits candidates) :=
  inferInstanceAs (Decidable (_ ∧ _))

/-- After an optimisation and some visits, the candidates of a channel are those
of the batch just when each interval counts right. -/
theorem matchRequests_batch_iff {dictionary : ChannelDictionary} {triggerType : TriggerType}
    {channelId : Nat} {contextual zeroChannel : Bool} {weight : Nat}
    {intervals : List ChannelInterval}
    (found : dictionary triggerType channelId =
      some (buildPack contextual zeroChannel weight intervals))
    (visited : ∀ interval ∈ intervals, 1 ≤ interval.minVisits) (gmtOffset now : Int)
    (before : ChannelsProfile) (history : HistoryUserProfile)
    (stored_sorted : ((historyOptimize dictionary gmtOffset now before history).2
      triggerType).Pairwise fun left right => left.channelId < right.channelId)
    {requests : List (Int × ChannelIdPack)}
    (sorted : ∀ request ∈ requests, (request.2.channelIds triggerType).Pairwise (· < ·))
    (some_visit : 0 < visitsTo triggerType channelId requests) :
    let optimized := historyOptimize dictionary gmtOffset now before history
    let today := (buildPack contextual zeroChannel weight intervals).todayLongIntervals.intervals
    let stored := storedVisits (optimized.2 triggerType) channelId
    let visits := visitsTo triggerType channelId requests
    MatchesBatch channelId today stored visits
        ((matchRequests dictionary requests optimized.1).sections triggerType).htCandidates ↔
      ∀ interval ∈ today, interval.CountsRight
        (today.any fun interval => stored interval ≠ 0) (stored interval) visits := by
  intro optimized today stored visits
  have today_visited (interval : ChannelInterval) (mem : interval ∈ today) :
      1 ≤ interval.minVisits := visited interval (mem_todayLongIntervals mem)
  have start := candidatesOf_fillHistory stored_sorted found
  have byChannel : ByChannel (optimized.1.sections triggerType).htCandidates :=
    pairwise_le_flatMap (channelId_fillHistory (dictionary triggerType)) stored_sorted
  have run := candidates_requests found rfl sorted byChannel
  have counted := iterate_afterVisit_iff channelId today_visited stored start some_visit
  replace counted := run ▸ counted
  -- the weights follow from the candidates
  exact ⟨fun batch => counted.1 batch.1, fun right => ⟨counted.2 right, of_batch (counted.2 right)⟩⟩

/-! A channel that matches by visits of the day. -/

def dayVisits (minVisits : Nat) : ChannelInterval := ⟨0, 86400, minVisits, 7⟩

def dayDictionary (minVisits : Nat) : ChannelDictionary := fun _ channelId =>
  if channelId = 1 then some (buildPack false false 0 [dayVisits minVisits]) else none

def newProfile : ChannelsProfile := ⟨100, 100, 100, fun _ => {}⟩

def twoVisits : List (Int × ChannelIdPack) :=
  [(200, { channelIds := fun _ => [1] }), (300, { channelIds := fun _ => [1, 2] })]

/-- One visit is enough. -/
theorem oneVisitNeeded_batch :
    MatchesBatch 1 [dayVisits 1] (fun _ => 0) 2 ((matchRequests (dayDictionary 1) twoVisits
      (historyOptimize (dayDictionary 1) 0 100 newProfile fun _ => []).1).sections
        .page).htCandidates :=
  (@matchRequests_batch_iff (dayDictionary 1) .page 1 false false 0 [dayVisits 1] rfl (by decide)
    0 100 newProfile (fun _ => []) (by decide) twoVisits (by decide) (by decide)).2
      (by decide +kernel)

/-- Two visits are needed: the candidate lacks none, but has no weight. -/
theorem twoVisitsNeeded_noWeight :
    ¬ MatchesBatch 1 [dayVisits 2] (fun _ => 0) 2 ((matchRequests (dayDictionary 2) twoVisits
      (historyOptimize (dayDictionary 2) 0 100 newProfile fun _ => []).1).sections
        .page).htCandidates := by
  decide +kernel

end AdServer.UserInfo
