import AdServer.UserInfo.TodayCandidates
import Mathlib.Algebra.Order.BigOperators.Group.List
import Mathlib.Algebra.Order.Ring.Nat

/-!
# The days of the history

An optimisation moves the visits counted since the one before to the day of that
one. The history keeps them by their distance to the day of the last
optimisation, and drops the days no interval of the channel looks back to.
-/

namespace AdServer.UserInfo

open AdServer.Lib

variable {history untrimmed : List HistoryChannelInfo}

/-! ## The visits of some days -/

def daysTotal (days : Nat → Bool) (daysVisits : List DaysVisits) : Nat :=
  ((daysVisits.filter fun dv => days dv.days).map DaysVisits.visits).sum

@[simp] theorem daysTotal_nil (days : Nat → Bool) : daysTotal days [] = 0 := rfl

@[simp] theorem daysTotal_cons (days : Nat → Bool) (dv : DaysVisits) (rest : List DaysVisits) :
    daysTotal days (dv :: rest) = (if days dv.days then dv.visits else 0) + daysTotal days rest := by
  unfold daysTotal
  by_cases inside : days dv.days <;> simp [inside]

/-- The days can be shifted without being cut. -/
def FitsShift (offset : Nat) (daysVisits : List DaysVisits) : Prop :=
  ∀ dv ∈ daysVisits, dv.days + offset < 4294967296

theorem daysTotal_shift (days : Nat → Bool) {offset : Nat} {daysVisits : List DaysVisits}
    (fits : FitsShift offset daysVisits) : daysTotal days (daysVisits.map (DaysVisits.shift offset)) =
      daysTotal (fun day => days (day + offset)) daysVisits := by
  induction daysVisits with
  | nil => rfl
  | cons dv rest ih =>
    obtain ⟨first, others⟩ := List.forall_mem_cons.1 fits
    rw [List.map_cons, daysTotal_cons, daysTotal_cons, ih others, DaysVisits.shift,
      uint_natCast first]

/-- The days of an interval. -/
def ChannelInterval.covers (interval : ChannelInterval) (day : Nat) : Bool :=
  decide (interval.timeFrom / secInDay ≤ day ∧ day < interval.timeTo / secInDay)

theorem ChannelIntervalsPack.covers_lt {pack : ChannelIntervalsPack} {interval : ChannelInterval}
    (mem : interval ∈ pack.longIntervals.intervals ++ pack.todayLongIntervals.intervals) {day : Nat}
    (covers : interval.covers day = true) : day < pack.maxDays := by
  have range := of_decide_eq_true covers
  have ends : interval.timeTo ≤
      max pack.longIntervals.maxTimeTo pack.todayLongIntervals.maxTimeTo := by
    obtain long | today := List.mem_append.1 mem
    · have bound := pack.longIntervals.bounded interval long
      omega
    · have bound := pack.todayLongIntervals.bounded interval today
      omega
  exact Nat.lt_of_lt_of_le range.2 (Nat.div_le_div_right ends)

variable {days : Nat → Bool} {offset : Nat} {history : List HistoryChannelInfo}
  {info : HistoryChannelInfo} {visits : List HistoryVisit}

theorem daysTotal_filter {maxDays : Nat} (below : ∀ day, days day = true → day < maxDays)
    (daysVisits : List DaysVisits) :
    daysTotal days (daysVisits.filter fun dv => decide (dv.days < maxDays)) =
      daysTotal days daysVisits := by
  unfold daysTotal
  rw [List.filter_filter]
  congr 2
  apply List.filter_congr
  intro dv _
  cases inside : days dv.days with
  | false => rfl
  | true => simp [below dv.days inside]

/-- The visits to a channel in its records. -/
def channelTotal (days : Nat → Bool) (channelId : Nat) (history : List HistoryChannelInfo) : Nat :=
  (history.map fun info =>
    if info.channelId = channelId then daysTotal days info.daysVisits else 0).sum

/-- The visits to a channel not yet moved to a day. -/
def visitsTotal (channelId : Nat) (visits : List HistoryVisit) : Nat :=
  (visits.map fun visit => if visit.channelId = channelId then visit.visits else 0).sum

/-- The visits of a record that a merge adds visits to. -/
def todayTotal (daysVisits : List DaysVisits) : Nat := daysTotal (fun day => day = 0) daysVisits

theorem le_visitsTotal {visit : HistoryVisit} (mem : visit ∈ visits) :
    visit.visits ≤ visitsTotal visit.channelId visits := by
  have member := List.le_sum_of_mem (List.mem_map_of_mem (f := fun other : HistoryVisit =>
    if other.channelId = visit.channelId then other.visits else 0) mem)
  rwa [if_pos rfl] at member

theorem daysTotal_mergeInfo {days : Nat → Bool} (short : offset < 4294967296)
    {left : HistoryChannelInfo} (fits : FitsShift offset left.daysVisits) {right : HistoryVisit}
    (few : days offset = true → todayTotal left.daysVisits + right.visits < 4294967296) :
    daysTotal days (mergeInfo offset left right).daysVisits =
      daysTotal days (convertInfo offset left).daysVisits +
        daysTotal days (convertVisit offset right).daysVisits := by
  simp only [mergeInfo, convertInfo, convertVisit, daysTotal_cons, daysTotal_nil,
    uint_natCast short]
  cases days_eq : left.daysVisits with
  | nil => simp
  | cons first rest =>
    rw [days_eq] at fits few
    have others := (List.forall_mem_cons.1 fits).2
    by_cases today : first.days = 0
    · simp only [if_pos today]
      rw [daysTotal_cons, daysTotal_shift days others, daysTotal_shift days fits, daysTotal_cons,
        today, Nat.zero_add]
      cases moved : days offset with
      | false => simp
      | true =>
        have sum := few moved
        simp only [todayTotal, daysTotal_cons, today, decide_true, if_true] at sum
        rw [uint_natCast (by omega)]
        simp only [if_true]
        omega
    · simp only [if_neg today]
      rw [daysTotal_cons, daysTotal_shift days fits]
      simp only []
      omega

theorem convertVisit_total (days : Nat → Bool) (channelId : Nat) {offset : Nat}
    (short : offset < 4294967296) (visits : List HistoryVisit) :
    ((visits.map (convertVisit offset)).map fun info =>
        if info.channelId = channelId then daysTotal days info.daysVisits else 0).sum =
      if days offset then visitsTotal channelId visits else 0 := by
  unfold visitsTotal
  induction visits with
  | nil => simp
  | cons visit rest ih =>
    simp only [List.map_cons, List.sum_cons, ih, convertVisit, daysTotal_cons, daysTotal_nil,
      uint_natCast short]
    split <;> split <;> simp_all

theorem channelTotal_mergeHistory (days : Nat → Bool) (channelId : Nat)
    (short : offset < 4294967296) (fits : ∀ info ∈ history, FitsShift offset info.daysVisits)
    (few : days offset = true → channelTotal (fun day => day = 0) channelId history +
      visitsTotal channelId visits < 4294967296) :
    channelTotal days channelId (mergeHistory offset history visits) =
      channelTotal (fun day => days (day + offset)) channelId history +
        if days offset then visitsTotal channelId visits else 0 := by
  have shifted : ∀ info ∈ history, (if (convertInfo offset info).channelId = channelId then
      daysTotal days (convertInfo offset info).daysVisits else 0) =
      if info.channelId = channelId then
        daysTotal (fun day => days (day + offset)) info.daysVisits else 0 := by
    intro info mem
    simp only [convertInfo, daysTotal_shift days (fits info mem)]
  unfold mergeHistory
  split
  · rename_i none_stored
    rw [List.isEmpty_iff.1 none_stored, channelTotal, convertVisit_total days channelId short]
    simp [channelTotal]
  · unfold channelTotal
    rw [sum_mergeUnique, ← convertVisit_total days channelId short, List.map_map]
    · congr 2
      exact List.map_congr_left shifted
    · intro info mem visit mem' same
      have merged : (mergeInfo offset info visit).channelId = info.channelId := rfl
      have converted : (convertInfo offset info).channelId = info.channelId := rfl
      have added : (convertVisit offset visit).channelId = info.channelId := same.symm
      rw [merged, converted, added]
      split
      · next own =>
        refine daysTotal_mergeInfo short (fits info mem) fun moved => ?_
        have stored := List.le_sum_of_mem (List.mem_map_of_mem (f := fun info : HistoryChannelInfo =>
          if info.channelId = channelId then todayTotal info.daysVisits else 0) mem)
        have waiting := le_visitsTotal mem'
        rw [← same, own] at waiting
        rw [if_pos own] at stored
        exact (Nat.add_le_add stored waiting).trans_lt (few moved)
      · rfl

section Clean

variable {channels : ChannelsHashMap} {channelId : Nat} {pack : ChannelIntervalsPack}
  (found : channels channelId = some pack)

include found

theorem channelTotal_clean {days : Nat → Bool}
    (below : ∀ day, days day = true → day < pack.maxDays) (history : List HistoryChannelInfo) :
    channelTotal days channelId ((history.map (cleanInfo channels)).filter (keepsInfo channels)) =
      channelTotal days channelId history := by
  unfold channelTotal
  induction history with
  | nil => rfl
  | cons info rest ih =>
    have cleaned : (if (cleanInfo channels info).channelId = channelId then
        daysTotal days (cleanInfo channels info).daysVisits else 0) =
        if info.channelId = channelId then daysTotal days info.daysVisits else 0 := by
      by_cases same : info.channelId = channelId
      · have here : (cleanInfo channels info).daysVisits =
            info.daysVisits.filter fun dv => decide (dv.days < pack.maxDays) := by
          simp only [cleanInfo, same, found]
        rw [here, daysTotal_filter below]
        rfl
      · rw [if_neg same]
        exact if_neg same
    rw [List.map_cons, List.map_cons, List.sum_cons, ← ih, ← cleaned]
    by_cases kept : keepsInfo channels (cleanInfo channels info)
    · rw [List.filter_cons_of_pos kept, List.map_cons, List.sum_cons]
    · -- a record that goes is of another channel or has no days
      rw [List.filter_cons_of_neg kept]
      have nothing : (if (cleanInfo channels info).channelId = channelId then
          daysTotal days (cleanInfo channels info).daysVisits else 0) = 0 := by
        split
        · rename_i same
          have no_days : (cleanInfo channels info).daysVisits = [] := by
            simpa [keepsInfo, same, found] using kept
          rw [no_days, daysTotal_nil]
        · rfl
      omega

theorem cleanInfo_bounded {info : HistoryChannelInfo} (same : info.channelId = channelId) :
    ∀ dv ∈ (cleanInfo channels info).daysVisits, dv.days < pack.maxDays := by
  intro dv mem
  simp only [cleanInfo, same, found] at mem
  simpa using (List.mem_filter.1 mem).2

end Clean

/-! ## Days in order -/

def DaysIncrease (info : HistoryChannelInfo) : Prop :=
  info.daysVisits.Pairwise fun dv dv' => dv.days < dv'.days

theorem pairwise_shift {daysVisits : List DaysVisits} (fits : FitsShift offset daysVisits)
    (increase : daysVisits.Pairwise fun dv dv' => dv.days < dv'.days) :
    (daysVisits.map (DaysVisits.shift offset)).Pairwise fun dv dv' => dv.days < dv'.days := by
  apply List.pairwise_map.2
  apply increase.imp_of_mem
  intro dv dv' mem mem' lt
  simp only [DaysVisits.shift, uint_natCast (fits dv mem), uint_natCast (fits dv' mem')]
  exact Nat.add_lt_add_right lt offset

theorem mergeInfo_increase {left : HistoryChannelInfo} (increase : DaysIncrease left)
    (short : offset < 4294967296) (fits : FitsShift offset left.daysVisits) (right : HistoryVisit) :
    DaysIncrease (mergeInfo offset left right) := by
  unfold DaysIncrease mergeInfo at *
  rw [uint_natCast short]
  cases days_eq : left.daysVisits with
  | nil => exact List.pairwise_singleton _ _
  | cons first rest =>
    rw [days_eq] at increase fits
    obtain ⟨head, tail⟩ := List.pairwise_cons.1 increase
    by_cases today : first.days = 0
    · simp only [if_pos today]
      have others := (List.forall_mem_cons.1 fits).2
      refine List.pairwise_cons.2 ⟨?_, pairwise_shift others tail⟩
      intro dv mem
      obtain ⟨stored, inRest, rfl⟩ := List.mem_map.1 mem
      have later := head stored inRest
      simp only [DaysVisits.shift, uint_natCast (others stored inRest)]
      omega
    · simp only [if_neg today]
      refine List.pairwise_cons.2 ⟨?_, pairwise_shift fits increase⟩
      intro dv mem
      obtain ⟨stored, inAll, rfl⟩ := List.mem_map.1 mem
      have positive : 0 < stored.days := by
        obtain rfl | inRest := List.mem_cons.1 inAll
        · omega
        · have later := head stored inRest
          omega
      simp only [DaysVisits.shift, uint_natCast (fits stored inAll)]
      omega

theorem mergeHistory_increase (increase : ∀ info ∈ history, DaysIncrease info)
    (short : offset < 4294967296) (fits : ∀ info ∈ history, FitsShift offset info.daysVisits)
    (visits : List HistoryVisit) :
    ∀ info ∈ mergeHistory offset history visits, DaysIncrease info := by
  have single (visit : HistoryVisit) : DaysIncrease (convertVisit offset visit) :=
    List.pairwise_singleton _ _
  unfold mergeHistory
  split
  · intro info mem
    obtain ⟨visit, -, rfl⟩ := List.mem_map.1 mem
    exact single visit
  · apply forall_mergeUnique
    · intro info mem
      exact pairwise_shift (fits info mem) (increase info mem)
    · exact fun visit _ => single visit
    · exact fun info mem visit _ _ => mergeInfo_increase (increase info mem) short (fits info mem) visit

/-- No day of the records is further back than `age`. -/
def ReachBack (age : Int) (history : List HistoryChannelInfo) : Prop :=
  ∀ info ∈ history, ∀ dv ∈ info.daysVisits, (dv.days : Int) ≤ age

theorem mergeHistory_reachBack {age : Int} (some_age : 0 ≤ age) (reach : ReachBack age history)
    (offset : Nat) (visits : List HistoryVisit) :
    ReachBack (age + offset) (mergeHistory offset history visits) := by
  have cut (value : Nat) : uint value ≤ value := by
    unfold uint
    omega
  have moved (dv : DaysVisits) (bound : dv.days = uint offset) : (dv.days : Int) ≤ age + offset := by
    have := cut offset
    omega
  have shifted {daysVisits : List DaysVisits} (old : ∀ dv ∈ daysVisits, (dv.days : Int) ≤ age) :
      ∀ dv ∈ daysVisits.map (DaysVisits.shift offset), (dv.days : Int) ≤ age + offset := by
    intro dv mem
    obtain ⟨stored, inStored, rfl⟩ := List.mem_map.1 mem
    have below := old stored inStored
    have := cut (stored.days + offset)
    simp only [DaysVisits.shift]
    omega
  have single (visit : HistoryVisit) : ∀ dv ∈ (convertVisit offset visit).daysVisits,
      (dv.days : Int) ≤ age + offset :=
    List.forall_mem_singleton.2 (moved _ rfl)
  unfold mergeHistory
  split
  · intro info mem
    obtain ⟨visit, -, rfl⟩ := List.mem_map.1 mem
    exact single visit
  · apply forall_mergeUnique
    · exact fun info mem => shifted (reach info mem)
    · exact fun visit _ => single visit
    · intro info mem visit _ _
      have old := reach info mem
      unfold mergeInfo
      cases days_eq : info.daysVisits with
      | nil => exact single visit
      | cons first rest =>
        rw [days_eq] at old
        by_cases today : first.days = 0
        · simp only [if_pos today]
          exact List.forall_mem_cons.2 ⟨moved _ rfl, shifted (List.forall_mem_cons.1 old).2⟩
        · simp only [if_neg today]
          exact List.forall_mem_cons.2 ⟨moved _ rfl, shifted old⟩

theorem cleanInfo_increase {channels : ChannelsHashMap} (increase : DaysIncrease info) :
    DaysIncrease (cleanInfo channels info) := by
  unfold DaysIncrease cleanInfo
  split
  · exact List.Pairwise.nil
  · exact increase.filter _

/-! ## Records in order -/

theorem mem_keys_mergeHistory {channelId : Nat} :
    channelId ∈ (mergeHistory offset history visits).map HistoryChannelInfo.channelId ↔
      channelId ∈ history.map HistoryChannelInfo.channelId ∨
        channelId ∈ visits.map HistoryVisit.channelId := by
  unfold mergeHistory
  split
  · rename_i none_stored
    rw [List.isEmpty_iff.1 none_stored, List.map_map]
    simp [Function.comp_def, convertVisit]
  · apply mem_keys_mergeUnique
    · exact fun _ => rfl
    · exact fun _ => rfl
    · exact fun _ _ same => same

theorem mergeHistory_sorted
    (sorted : history.Pairwise fun info info' => info.channelId < info'.channelId)
    (visits_sorted : visits.Pairwise fun visit visit' => visit.channelId < visit'.channelId) :
    (mergeHistory offset history visits).Pairwise
      fun info info' => info.channelId < info'.channelId := by
  unfold mergeHistory
  split
  · exact List.pairwise_map.2 visits_sorted
  · apply pairwise_mergeUnique
    · exact fun _ => rfl
    · exact fun _ => rfl
    · exact fun _ _ same => same
    · exact sorted
    · exact visits_sorted

theorem clean_sorted (channels : ChannelsHashMap)
    (sorted : history.Pairwise fun info info' => info.channelId < info'.channelId) :
    ((history.map (cleanInfo channels)).filter (keepsInfo channels)).Pairwise
      fun info info' => info.channelId < info'.channelId :=
  List.Pairwise.filter _ (List.pairwise_map.2 sorted)

theorem channelTotal_eq
    (sorted : history.Pairwise fun info info' => info.channelId < info'.channelId)
    (mem : info ∈ history) :
    channelTotal days info.channelId history = daysTotal days info.daysVisits := by
  have none_of {others : List HistoryChannelInfo}
      (different : ∀ other ∈ others, other.channelId ≠ info.channelId) :
      channelTotal days info.channelId others = 0 := by
    apply List.sum_eq_zero_iff_forall_eq_nat.2
    intro total inTotals
    obtain ⟨other, inOthers, rfl⟩ := List.mem_map.1 inTotals
    exact if_neg (different other inOthers)
  obtain ⟨before, after, rfl⟩ := List.append_of_mem mem
  obtain ⟨-, rest, cross⟩ := List.pairwise_append.1 sorted
  have below := none_of fun other inBefore =>
    Nat.ne_of_lt (cross other inBefore info (by simp))
  have above := none_of fun other inAfter =>
    Nat.ne_of_gt ((List.pairwise_cons.1 rest).1 other inAfter)
  unfold channelTotal at *
  rw [List.map_append, List.sum_append, List.map_cons, List.sum_cons, below, above, if_pos rfl,
    Nat.zero_add, Nat.add_zero]

section Visit

variable {channels : ChannelsHashMap} {channelId : Nat} {pack : ChannelIntervalsPack}
  (found : channels channelId = some pack)
  (counts : pack.longIntervals.intervals ++ pack.todayLongIntervals.intervals ≠ [])

theorem visitsTotal_append (channelId : Nat) (left right : List HistoryVisit) :
    visitsTotal channelId (left ++ right) =
      visitsTotal channelId left + visitsTotal channelId right := by
  rw [visitsTotal, List.map_append, List.sum_append]
  rfl

theorem channelId_requestVisits (channels : ChannelsHashMap) (channelId : Nat) :
    ∀ visit ∈ requestVisits channels channelId, visit.channelId = channelId := by
  unfold requestVisits
  split
  · simp
  · split
    · simp
    · simp

include found in
theorem visitsTotal_known (visits : List HistoryVisit) :
    visitsTotal channelId (visits.filter fun visit => (channels visit.channelId).isSome) =
      visitsTotal channelId visits := by
  unfold visitsTotal
  induction visits with
  | nil => rfl
  | cons visit rest ih =>
    rw [List.map_cons, List.sum_cons, ← ih]
    by_cases known : (channels visit.channelId).isSome
    · rw [List.filter_cons_of_pos (a := visit) known, List.map_cons, List.sum_cons]
    · have other : visit.channelId ≠ channelId := by
        intro same
        rw [same, found] at known
        exact known rfl
      rw [List.filter_cons_of_neg (a := visit) known, if_neg other, Nat.zero_add]

include found counts in
theorem visitsTotal_request (channelIds : List Nat) :
    visitsTotal channelId (channelIds.flatMap (requestVisits channels)) =
      channelIds.count channelId := by
  induction channelIds with
  | nil => rfl
  | cons first rest ih =>
    rw [List.flatMap_cons, visitsTotal_append, ih, List.count_cons]
    by_cases same : first = channelId
    · have one : requestVisits channels first = [⟨channelId, 1⟩] := by
        have listed : (pack.longIntervals.intervals.isEmpty &&
            pack.todayLongIntervals.intervals.isEmpty) = false := by
          rw [Bool.eq_false_iff]
          intro both
          rw [Bool.and_eq_true, List.isEmpty_iff, List.isEmpty_iff] at both
          exact counts (List.append_eq_nil_iff.2 both)
        rw [requestVisits, same, found]
        simp only [listed]
        rfl
      rw [one, if_pos (by simpa using same)]
      simp only [visitsTotal, List.map_cons, List.map_nil, if_true, List.sum_cons, List.sum_nil]
      omega
    · have none_own : visitsTotal channelId (requestVisits channels first) = 0 := by
        apply List.sum_eq_zero_iff_forall_eq_nat.2
        intro total inTotals
        obtain ⟨visit, inVisits, rfl⟩ := List.mem_map.1 inTotals
        rw [channelId_requestVisits channels first visit inVisits, if_neg same]
      rw [none_own, if_neg (by simpa using same)]
      omega

theorem matchSection_historyVisits (channels : ChannelsHashMap) (base : Option ChannelsInfo)
    (channelIds : List Nat) : (matchSection channels base channelIds).1.historyVisits =
      (mergeUnique HistoryVisit.channelId HistoryVisit.channelId id id mergeHistoryVisit
        ((base.map ChannelsInfo.historyVisits).getD [])
        (channelIds.flatMap (requestVisits channels))).filter
          fun visit => (channels visit.channelId).isSome := by
  have delta := (foldl_addChannelVisit channels channelIds ({}, [])).2
  rw [List.nil_append] at delta
  simp only [matchSection, mergeRequestChannelsDelta]
  rw [delta]
  cases base with
  | none => rw [Option.map_none, Option.getD_none, mergeUnique_nil, List.map_id]
  | some base => rfl

include found counts in
theorem visitsTotal_matchSection {base : Option ChannelsInfo} {channelIds : List Nat}
    (few : visitsTotal channelId ((base.map ChannelsInfo.historyVisits).getD []) +
      channelIds.count channelId < 4294967296) :
    visitsTotal channelId (matchSection channels base channelIds).1.historyVisits =
      visitsTotal channelId ((base.map ChannelsInfo.historyVisits).getD []) +
        channelIds.count channelId := by
  rw [← visitsTotal_request found counts] at few ⊢
  rw [matchSection_historyVisits, visitsTotal_known found]
  apply sum_mergeUnique
  intro visit mem visit' mem' same
  have merged : (mergeHistoryVisit visit visit').channelId = visit'.channelId := rfl
  simp only [merged, id_eq, same]
  split
  · next own =>
    have stored := le_visitsTotal mem
    have added := le_visitsTotal mem'
    rw [same, own] at stored
    rw [own] at added
    exact uint_natCast ((Nat.add_le_add stored added).trans_lt few)
  · rfl

theorem historyVisits_sorted {base : Option ChannelsInfo} {channelIds : List Nat}
    (base_sorted : ((base.map ChannelsInfo.historyVisits).getD []).Pairwise
      fun visit visit' => visit.channelId < visit'.channelId)
    (sorted : channelIds.Pairwise (· < ·)) :
    (matchSection channels base channelIds).1.historyVisits.Pairwise
      fun visit visit' => visit.channelId < visit'.channelId := by
  rw [matchSection_historyVisits]
  apply List.Pairwise.filter
  apply pairwise_mergeUnique
  · exact fun _ => rfl
  · exact fun _ => rfl
  · exact fun _ _ _ => rfl
  · exact base_sorted
  · -- a channel gives one visit at most
    induction channelIds with
    | nil => exact List.Pairwise.nil
    | cons first rest ih =>
      obtain ⟨head, tail⟩ := List.pairwise_cons.1 sorted
      rw [List.flatMap_cons, List.pairwise_append]
      refine ⟨?_, ih tail, ?_⟩
      · unfold requestVisits
        split
        · exact List.Pairwise.nil
        · split
          · exact List.Pairwise.nil
          · exact List.pairwise_singleton _ _
      · intro visit mem visit' mem'
        obtain ⟨later, inRest, inVisits⟩ := List.mem_flatMap.1 mem'
        rw [channelId_requestVisits channels first visit mem,
          channelId_requestVisits channels later visit' inVisits]
        exact head later inRest

end Visit

/-! ## A run -/

/-- A request, with the day the history counts its visits for and the day it was
made on. -/
structure CountedRequest where
  day : Int
  ownDay : Int
  channelIds : TriggerType → List Nat

/-- The visits some requests make to a channel. -/
def visitsBy (triggerType : TriggerType) (channelId : Nat) (requests : List CountedRequest) :
    Nat :=
  (requests.map fun request => (request.channelIds triggerType).count channelId).sum

/-- The runs of a user: the profiles, the history as it is without a day ever
dropped, and the requests before and since the last optimisation. Visits count
for the day of the optimisation before them, at first of the first request. -/
inductive Visited (dictionary : ChannelDictionary) (gmtOffset : Int) :
    Option ChannelsProfile → HistoryUserProfile → HistoryUserProfile → List CountedRequest →
      List CountedRequest → Prop
  | empty : Visited dictionary gmtOffset none (fun _ => []) (fun _ => []) [] []
  | visit {profile : Option ChannelsProfile} {history untrimmed : HistoryUserProfile}
      {counted waiting : List CountedRequest}
      (visited : Visited dictionary gmtOffset profile history untrimmed counted waiting)
      {now : Int} (after_epoch : 0 < uint now) (pack : ChannelIdPack) :
      Visited dictionary gmtOffset (some (matchChannels dictionary now pack profile).1) history
        untrimmed counted
        (⟨dayOf gmtOffset (matchChannels dictionary now pack profile).1.historyTime,
          dayOf gmtOffset (uint now), pack.channelIds⟩ :: waiting)
  | optimize {profile : ChannelsProfile} {history untrimmed : HistoryUserProfile}
      {counted waiting : List CountedRequest}
      (visited : Visited dictionary gmtOffset (some profile) history untrimmed counted waiting)
      {now : Int} (later : dayOf gmtOffset profile.historyTime ≤
        dayOf gmtOffset (max (uint now) profile.lastRequestTime)) :
      Visited dictionary gmtOffset
        (some (historyOptimize dictionary gmtOffset now profile history).1)
        (historyOptimize dictionary gmtOffset now profile history).2
        (fun triggerType => mergeHistory
          (uint (dayOf gmtOffset (max (uint now) profile.lastRequestTime) -
            dayOf gmtOffset profile.historyTime))
          (untrimmed triggerType) (profile.sections triggerType).historyVisits)
        (waiting ++ counted) []

section Run

variable {dictionary : ChannelDictionary} {gmtOffset : Int} {triggerType : TriggerType}
  {channelId : Nat}

theorem visitsBy_append (left right : List CountedRequest) :
    visitsBy triggerType channelId (left ++ right) =
      visitsBy triggerType channelId left + visitsBy triggerType channelId right := by
  unfold visitsBy
  rw [List.map_append, List.sum_append]

theorem visitsBy_filter_le (p : CountedRequest → Bool) (requests : List CountedRequest) :
    visitsBy triggerType channelId (requests.filter p) ≤ visitsBy triggerType channelId requests :=
  (List.filter_sublist.map _).sum_le_sum fun _ _ => Nat.zero_le _

theorem visitsBy_moved (days : Nat → Bool) {today moved : Int} (later : today ≤ moved)
    {counted waiting : List CountedRequest} (past : ∀ request ∈ counted, request.day ≤ today)
    (now : ∀ request ∈ waiting, request.day = today) :
    visitsBy triggerType channelId
        ((waiting ++ counted).filter fun request => days (moved - request.day).toNat) =
      visitsBy triggerType channelId (counted.filter fun request =>
          days ((today - request.day).toNat + (moved - today).toNat)) +
        if days (moved - today).toNat then visitsBy triggerType channelId waiting else 0 := by
  have old : counted.filter (fun request => days (moved - request.day).toNat) =
      counted.filter fun request => days ((today - request.day).toNat + (moved - today).toNat) := by
    apply List.filter_congr
    intro request mem
    have before := past request mem
    congr 1
    omega
  have new : waiting.filter (fun request => days (moved - request.day).toNat) =
      if days (moved - today).toNat then waiting else [] := by
    have same : waiting.filter (fun request => days (moved - request.day).toNat) =
        waiting.filter fun _ => days (moved - today).toNat := by
      apply List.filter_congr
      intro request mem
      rw [now request mem]
    rw [same]
    cases days (moved - today).toNat <;> simp
  rw [List.filter_append, visitsBy_append, old, new]
  split
  · omega
  · simp [visitsBy]

/-- What the records and the visits of a channel count, against the requests. -/
structure CountsKept (triggerType : TriggerType) (channelId maxDays : Nat) (today : Int)
    (history untrimmed : List HistoryChannelInfo) (visits : List HistoryVisit)
    (counted waiting : List CountedRequest) : Prop where
  kept : ∀ days : Nat → Bool, (∀ day, days day = true → day < maxDays) →
    channelTotal days channelId history = visitsBy triggerType channelId
      (counted.filter fun request => days (today - request.day).toNat)
  everything : ∀ days : Nat → Bool, channelTotal days channelId untrimmed =
    visitsBy triggerType channelId
      (counted.filter fun request => days (today - request.day).toNat)
  past : ∀ request ∈ counted, request.day ≤ today
  now : ∀ request ∈ waiting, request.day = today
  visits_eq : visitsTotal channelId visits = visitsBy triggerType channelId waiting

theorem CountsKept.start (maxDays : Nat) (today : Int) :
    CountsKept triggerType channelId maxDays today [] [] [] [] [] where
  kept _ _ := rfl
  everything _ := rfl
  past := by simp
  now := by simp
  visits_eq := rfl

section Step

variable {pack : ChannelIntervalsPack} {today : Int} {history untrimmed : List HistoryChannelInfo}
  {counted waiting : List CountedRequest}

variable {channels : ChannelsHashMap}

theorem CountsKept.visit (found : channels channelId = some pack)
    (counts : pack.longIntervals.intervals ++ pack.todayLongIntervals.intervals ≠ [])
    {base : Option ChannelsInfo}
    (kept : CountsKept triggerType channelId pack.maxDays today history untrimmed
      ((base.map ChannelsInfo.historyVisits).getD []) counted waiting)
    {ownDay : Int} {channelIds : TriggerType → List Nat}
    (few : visitsBy triggerType channelId (⟨today, ownDay, channelIds⟩ :: waiting) < 4294967296) :
    CountsKept triggerType channelId pack.maxDays today history untrimmed
      (matchSection channels base (channelIds triggerType)).1.historyVisits counted
      (⟨today, ownDay, channelIds⟩ :: waiting) where
  kept := kept.kept
  everything := kept.everything
  past := kept.past
  now := List.forall_mem_cons.2 ⟨rfl, kept.now⟩
  visits_eq := by
    have sum : visitsBy triggerType channelId (⟨today, ownDay, channelIds⟩ :: waiting) =
        (channelIds triggerType).count channelId + visitsBy triggerType channelId waiting := rfl
    rw [sum, ← kept.visits_eq, Nat.add_comm] at few ⊢
    exact visitsTotal_matchSection found counts few

theorem visitsBy_filter_add_lt (few : visitsBy triggerType channelId (waiting ++ counted) < 4294967296)
    (p : CountedRequest → Bool) : visitsBy triggerType channelId (counted.filter p) +
      visitsBy triggerType channelId waiting < 4294967296 := by
  have part := @visitsBy_filter_le triggerType channelId p counted
  rw [visitsBy_append] at few
  omega

theorem CountsKept.optimize (found : channels channelId = some pack) {info : ChannelsInfo}
    (kept : CountsKept triggerType channelId pack.maxDays today history untrimmed
      info.historyVisits counted waiting)
    {moved : Int} (later : today ≤ moved) (short : moved - today < 4294967296)
    (fits : ∀ info ∈ history ++ untrimmed, FitsShift (moved - today).toNat info.daysVisits)
    (few : visitsBy triggerType channelId (waiting ++ counted) < 4294967296) :
    CountsKept triggerType channelId pack.maxDays moved
      (historyOptimizeSection channels (moved - today).toNat history info).2
      (mergeHistory (moved - today).toNat untrimmed info.historyVisits)
      (historyOptimizeSection channels (moved - today).toNat history info).1.historyVisits
      (waiting ++ counted) [] where
  kept days below := by
    have below_moved (day : Nat) (inside : days (day + (moved - today).toNat) = true) :
        day < pack.maxDays := by
      have bound := below _ inside
      omega
    have merged := channelTotal_clean found below
      (mergeHistory (moved - today).toNat history info.historyVisits)
    rw [visitsBy_moved days later kept.past kept.now, ← kept.kept _ below_moved, ← kept.visits_eq,
      ← channelTotal_mergeHistory days channelId (by omega) (List.forall_mem_append.1 fits).1]
    · exact merged
    · intro today_counts
      have some_day := below _ today_counts
      have inside (day : Nat) (here : decide (day = 0) = true) : day < pack.maxDays := by
        rw [of_decide_eq_true here]
        exact (Nat.zero_le _).trans_lt some_day
      rw [kept.kept _ inside, kept.visits_eq]
      exact visitsBy_filter_add_lt few _
  everything days := by
    rw [visitsBy_moved days later kept.past kept.now,
      ← kept.everything fun day => days (day + (moved - today).toNat), ← kept.visits_eq,
      ← channelTotal_mergeHistory days channelId (by omega) (List.forall_mem_append.1 fits).2]
    intro _
    rw [kept.everything, kept.visits_eq]
    exact visitsBy_filter_add_lt few _
  past := by
    intro request mem
    obtain new | old := List.mem_append.1 mem
    · rw [kept.now request new]
      exact later
    · exact Int.le_trans (kept.past request old) later
  now := by simp
  visits_eq := rfl

end Step

theorem Visited.none_empty {history untrimmed : HistoryUserProfile}
    {counted waiting : List CountedRequest}
    (visited : Visited dictionary gmtOffset none history untrimmed counted waiting) :
    history = (fun _ => []) ∧ untrimmed = (fun _ => []) ∧ counted = [] ∧ waiting = [] := by
  cases visited
  exact ⟨rfl, rfl, rfl, rfl⟩

/-- The records themselves, and their order where requests name channels in order. -/
structure RecordsKept (channels : ChannelsHashMap) (triggerType : TriggerType) (age : Int)
    (history untrimmed : List HistoryChannelInfo) (visits : List HistoryVisit)
    (counted waiting : List CountedRequest) : Prop where
  reach : ReachBack age (history ++ untrimmed)
  increase : ∀ info ∈ history, DaysIncrease info
  cleaned : ∀ info ∈ history, ∃ stored, info = cleanInfo channels stored
  known : ∀ info ∈ history, info.channelId ∈ untrimmed.map HistoryChannelInfo.channelId
  sorted : (∀ request ∈ counted, (request.channelIds triggerType).Pairwise (· < ·)) →
    (history.Pairwise fun info info' => info.channelId < info'.channelId) ∧
      untrimmed.Pairwise fun info info' => info.channelId < info'.channelId
  visits_sorted : (∀ request ∈ waiting, (request.channelIds triggerType).Pairwise (· < ·)) →
    visits.Pairwise fun visit visit' => visit.channelId < visit'.channelId

variable {channels : ChannelsHashMap} {age : Int}

theorem RecordsKept.fits {visits : List HistoryVisit} {counted waiting : List CountedRequest}
    (kept : RecordsKept channels triggerType age history untrimmed visits counted waiting) {days : Nat}
    (short : age + days < 4294967296) :
    ∀ info ∈ history ++ untrimmed, FitsShift days info.daysVisits := by
  intro info mem dv inDays
  have back := kept.reach info mem dv inDays
  omega

theorem RecordsKept.visit {base : Option ChannelsInfo} {counted waiting : List CountedRequest}
    (kept : RecordsKept channels triggerType age history untrimmed
      ((base.map ChannelsInfo.historyVisits).getD []) counted waiting)
    (day ownDay : Int) (channelIds : TriggerType → List Nat) :
    RecordsKept channels triggerType age history untrimmed
      (matchSection channels base (channelIds triggerType)).1.historyVisits counted
      (⟨day, ownDay, channelIds⟩ :: waiting) where
  reach := kept.reach
  increase := kept.increase
  cleaned := kept.cleaned
  known := kept.known
  sorted := kept.sorted
  visits_sorted ordered := by
    obtain ⟨first, rest⟩ := List.forall_mem_cons.1 ordered
    exact historyVisits_sorted (kept.visits_sorted rest) first

theorem RecordsKept.optimize {info : ChannelsInfo} {counted waiting : List CountedRequest}
    (kept : RecordsKept channels triggerType age history untrimmed info.historyVisits counted waiting)
    (some_age : 0 ≤ age) {days : Nat} (short : age + days < 4294967296) :
    RecordsKept channels triggerType (age + days)
      (historyOptimizeSection channels days history info).2
      (mergeHistory days untrimmed info.historyVisits)
      (historyOptimizeSection channels days history info).1.historyVisits (waiting ++ counted) [] where
  reach := by
    have back := List.forall_mem_append.1 kept.reach
    refine List.forall_mem_append.2 ⟨?_, mergeHistory_reachBack some_age back.2 days _⟩
    intro cleaned mem dv inDays
    obtain ⟨merged, inMerged, rfl⟩ := List.mem_map.1 (List.mem_filter.1 mem).1
    refine mergeHistory_reachBack some_age back.1 days _ merged inMerged dv ?_
    unfold cleanInfo at inDays
    split at inDays
    · cases inDays
    · exact List.mem_of_mem_filter inDays
  increase := by
    intro cleaned mem
    obtain ⟨merged, inMerged, rfl⟩ := List.mem_map.1 (List.mem_filter.1 mem).1
    have fits := (List.forall_mem_append.1 (kept.fits short)).1
    exact cleanInfo_increase
      (mergeHistory_increase kept.increase (by omega) fits _ merged inMerged)
  cleaned := by
    intro cleaned mem
    obtain ⟨merged, -, rfl⟩ := List.mem_map.1 (List.mem_filter.1 mem).1
    exact ⟨merged, rfl⟩
  known := by
    intro cleaned mem
    obtain ⟨merged, inMerged, rfl⟩ := List.mem_map.1 (List.mem_filter.1 mem).1
    apply mem_keys_mergeHistory.2
    obtain old | new := mem_keys_mergeHistory.1 (List.mem_map_of_mem inMerged)
    · obtain ⟨stored, inHistory, same⟩ := List.mem_map.1 old
      have inUntrimmed := kept.known stored inHistory
      rw [same] at inUntrimmed
      exact Or.inl inUntrimmed
    · exact Or.inr new
  sorted ordered := by
    obtain ⟨new, old⟩ := List.forall_mem_append.1 ordered
    obtain ⟨history_sorted, untrimmed_sorted⟩ := kept.sorted old
    have visits_sorted := kept.visits_sorted new
    exact ⟨clean_sorted channels (mergeHistory_sorted history_sorted visits_sorted),
      mergeHistory_sorted untrimmed_sorted visits_sorted⟩
  visits_sorted _ := List.Pairwise.nil

end Run

/-! ## What the history has of a channel -/

/-- The records of a channel against the requests before the last optimisation,
which was `today`, and against the history with all the days ever counted. -/
structure DaysRight (pack : ChannelIntervalsPack) (triggerType : TriggerType) (channelId : Nat)
    (today : Int) (history untrimmed : List HistoryChannelInfo) (counted : List CountedRequest) :
    Prop where
  increase : ∀ info ∈ history, info.channelId = channelId → DaysIncrease info
  dropped : ∀ info ∈ history, info.channelId = channelId →
    ∀ dv ∈ info.daysVisits, dv.days < pack.maxDays
  kept : ∀ day < pack.maxDays, channelTotal (fun other => other = day) channelId history =
    visitsBy triggerType channelId (counted.filter fun request => request.day = today - day)
  untrimmed_kept : ∀ day, channelTotal (fun other => other = day) channelId untrimmed =
    visitsBy triggerType channelId (counted.filter fun request => request.day = today - day)
  sums : ∀ interval ∈ pack.longIntervals.intervals ++ pack.todayLongIntervals.intervals,
    channelTotal interval.covers channelId history =
      channelTotal interval.covers channelId untrimmed

/-- Where requests name channels in order, a channel has one record at most, and an
interval has the same visits in it as in the record no day was dropped from. -/
def OneRecord (pack : ChannelIntervalsPack) (channelId : Nat)
    (history untrimmed : List HistoryChannelInfo) : Prop :=
  (history.Pairwise fun info info' => info.channelId < info'.channelId) ∧
    ∀ info ∈ history, info.channelId = channelId →
      ∃ full ∈ untrimmed, full.channelId = channelId ∧
        ∀ interval ∈ pack.longIntervals.intervals ++ pack.todayLongIntervals.intervals,
          intervalVisits interval info.daysVisits = intervalVisits interval full.daysVisits

section Result

variable {dictionary : ChannelDictionary} {gmtOffset : Int} {triggerType : TriggerType}
  {channelId : Nat} {pack : ChannelIntervalsPack} {profile : ChannelsProfile}
  {history untrimmed : HistoryUserProfile} {counted waiting : List CountedRequest}
  (found : dictionary triggerType channelId = some pack)
  (counts : pack.longIntervals.intervals ++ pack.todayLongIntervals.intervals ≠ [])
  (visited : Visited dictionary gmtOffset (some profile) history untrimmed counted waiting)

/-- The days from the creation of a profile to its last optimisation. -/
def ageOf (gmtOffset : Int) (profile : ChannelsProfile) : Int :=
  dayOf gmtOffset profile.historyTime - dayOf gmtOffset profile.createTime

theorem historyTime_visit (created : 0 < profile.createTime)
    (now : Int) (pack : ChannelIdPack) :
    (matchChannels dictionary now pack (some profile)).1.historyTime = profile.historyTime := by
  simp only [matchChannels, Option.map_some, Option.getD_some]
  rw [if_neg (by omega)]

theorem ageOf_visit (created : 0 < profile.createTime) (now : Int) (pack : ChannelIdPack) :
    ageOf gmtOffset (matchChannels dictionary now pack (some profile)).1 =
      ageOf gmtOffset profile := by
  simp only [ageOf, matchChannels, Option.map_some, Option.getD_some]
  rw [if_neg (by omega), if_neg (by omega)]

theorem ageOf_new (now : Int) (pack : ChannelIdPack) :
    ageOf gmtOffset (matchChannels dictionary now pack none).1 = 0 := Int.sub_self _

theorem ageOf_optimize {now : Int} {history : HistoryUserProfile}
    (later : dayOf gmtOffset profile.historyTime ≤
      dayOf gmtOffset (max (uint now) profile.lastRequestTime))
    (some_age : 0 ≤ ageOf gmtOffset profile)
    (recent : ageOf gmtOffset (historyOptimize dictionary gmtOffset now profile history).1 <
      4294967296) :
    ageOf gmtOffset (historyOptimize dictionary gmtOffset now profile history).1 =
        ageOf gmtOffset profile + uint (dayOf gmtOffset (max (uint now) profile.lastRequestTime) -
          dayOf gmtOffset profile.historyTime) ∧
      uint (dayOf gmtOffset (max (uint now) profile.lastRequestTime) -
          dayOf gmtOffset profile.historyTime) =
        (dayOf gmtOffset (max (uint now) profile.lastRequestTime) -
          dayOf gmtOffset profile.historyTime).toNat := by
  simp only [ageOf, historyOptimize] at some_age recent ⊢
  have days := uint_of_lt (Int.sub_nonneg_of_le later) (by omega)
  omega

include visited

theorem Visited.created : 0 < profile.createTime ∧ 0 ≤ ageOf gmtOffset profile := by
  generalize state : some profile = stored at visited
  induction visited generalizing profile with
  | empty => cases state
  | @visit before history untrimmed counted waiting visited now after_epoch pack ih =>
    cases state
    cases before with
    | none =>
      rw [ageOf_new]
      simp only [matchChannels]
      exact ⟨by simp; omega, Int.le_refl 0⟩
    | some profile =>
      have created := ih rfl
      rw [ageOf_visit created.1]
      simp only [matchChannels, Option.map_some, Option.getD_some]
      rw [if_neg (by omega)]
      exact created
  | @optimize before history untrimmed counted waiting visited now later ih =>
    cases state
    have created := @ih before rfl
    simp only [ageOf, historyOptimize] at created ⊢
    omega

section Recent
variable (recent : ageOf gmtOffset profile < 4294967296)
include recent

theorem Visited.recordsKept (triggerType : TriggerType) :
    RecordsKept (dictionary triggerType) triggerType (ageOf gmtOffset profile)
      (history triggerType) (untrimmed triggerType)
      (profile.sections triggerType).historyVisits counted waiting := by
  generalize state : some profile = stored at visited
  induction visited generalizing profile with
  | empty => cases state
  | @visit before history untrimmed counted waiting visited now after_epoch request ih =>
    cases state
    cases before with
    | none =>
      obtain ⟨rfl, rfl, rfl, rfl⟩ := visited.none_empty
      have start : RecordsKept (dictionary triggerType) triggerType 0 [] [] [] [] [] :=
        ⟨by simp [ReachBack], by simp, by simp, by simp, fun _ => ⟨.nil, .nil⟩, fun _ => .nil⟩
      rw [ageOf_new]
      exact @RecordsKept.visit _ _ _ _ _ none _ _ start _ _ request.channelIds
    | some profile =>
      rw [ageOf_visit visited.created.1] at recent ⊢
      exact @RecordsKept.visit _ _ _ _ _ (some (profile.sections triggerType)) _ _ (ih recent rfl)
        _ _ request.channelIds
  | @optimize before history untrimmed counted waiting visited now later ih =>
    cases state
    have created := visited.created
    obtain ⟨age, -⟩ := ageOf_optimize later created.2 recent
    rw [age] at recent ⊢
    exact (@ih before (by omega) rfl).optimize created.2 recent

include found counts
variable (few : visitsBy triggerType channelId (waiting ++ counted) < 4294967296)
include few

theorem Visited.countsKept :
    CountsKept triggerType channelId pack.maxDays (dayOf gmtOffset profile.historyTime)
      (history triggerType) (untrimmed triggerType) (profile.sections triggerType).historyVisits
      counted waiting := by
  generalize state : some profile = stored at visited
  induction visited generalizing profile with
  | empty => cases state
  | @visit before history untrimmed counted waiting visited now after_epoch request ih =>
    cases state
    have fewer : visitsBy triggerType channelId (waiting ++ counted) < 4294967296 :=
      Nat.lt_of_le_of_lt (Nat.le_add_left _ _) few
    rw [List.cons_append, ← List.cons_append, visitsBy_append] at few
    cases before with
    | none =>
      obtain ⟨rfl, rfl, rfl, rfl⟩ := visited.none_empty
      exact CountsKept.visit found counts (CountsKept.start pack.maxDays _) (by omega)
    | some profile =>
      have created := visited.created.1
      rw [ageOf_visit created] at recent
      have kept := ih recent fewer rfl
      rw [← historyTime_visit created now request] at kept
      exact @CountsKept.visit _ _ _ _ _ _ _ _ _ found counts
        (some (profile.sections triggerType)) kept _ _ (by omega)
  | @optimize before history untrimmed counted waiting visited now later ih =>
    cases state
    have created := visited.created
    obtain ⟨age, days⟩ := ageOf_optimize later created.2 recent
    have earlier : ageOf gmtOffset before < 4294967296 := by omega
    rw [List.nil_append] at few
    have records := visited.recordsKept earlier triggerType
    have kept := (@ih before earlier few rfl).optimize found later (by omega)
      (records.fits (by omega)) few
    rw [← days] at kept
    exact kept

theorem Visited.kept :
    DaysRight pack triggerType channelId (dayOf gmtOffset profile.historyTime)
      (history triggerType) (untrimmed triggerType) counted := by
  have records := visited.recordsKept recent triggerType
  have totals := visited.countsKept found counts recent few
  -- a request of the past is as many days away as its day says
  have away (day : Nat) : counted.filter (fun request =>
      decide ((dayOf gmtOffset profile.historyTime - request.day).toNat = day)) =
      counted.filter fun request =>
        decide (request.day = dayOf gmtOffset profile.historyTime - day) := by
    apply List.filter_congr
    intro request mem
    have past := totals.past request mem
    exact decide_eq_decide.2 (by omega)
  constructor
  · exact fun info mem _ => records.increase info mem
  · intro info mem same
    obtain ⟨stored, rfl⟩ := records.cleaned info mem
    exact cleanInfo_bounded found same
  · intro day below
    have inside (other : Nat) (here : decide (other = day) = true) : other < pack.maxDays := by
      rw [of_decide_eq_true here]
      exact below
    rw [totals.kept _ inside, away]
  · intro day
    rw [totals.everything, away]
  · intro interval mem
    rw [totals.kept _ fun _ => ChannelIntervalsPack.covers_lt mem, totals.everything]

theorem Visited.oneRecord
    (ordered : ∀ request ∈ counted, (request.channelIds triggerType).Pairwise (· < ·)) :
    OneRecord pack channelId (history triggerType) (untrimmed triggerType) := by
  have records := visited.recordsKept recent triggerType
  have days := visited.kept found counts recent few
  obtain ⟨history_sorted, untrimmed_sorted⟩ := records.sorted ordered
  refine ⟨history_sorted, ?_⟩
  intro info mem same
  obtain ⟨full, inUntrimmed, full_same⟩ := List.mem_map.1 (records.known info mem)
  refine ⟨full, inUntrimmed, full_same.trans same, ?_⟩
  intro interval inPack
  have sums := days.sums interval inPack
  rwa [← same, channelTotal_eq history_sorted mem, ← full_same,
    channelTotal_eq untrimmed_sorted inUntrimmed] at sums

/-- After any run the days of a channel increase, each has the visits of the requests
that count for it, and no interval misses a visit. Requests made on the day of the
optimisation before them count for their own day. The days since the profile was
created, and the visits to the channel, fit their 32 bits. -/
theorem visited_daysRight :
    DaysRight pack triggerType channelId (dayOf gmtOffset profile.historyTime)
        (history triggerType) (untrimmed triggerType) counted ∧
      ((∀ request ∈ counted, request.ownDay = request.day) → ∀ day < pack.maxDays,
        channelTotal (fun other => other = day) channelId (history triggerType) =
          visitsBy triggerType channelId (counted.filter fun request =>
            request.ownDay = dayOf gmtOffset profile.historyTime - day)) ∧
      ((∀ request ∈ counted, (request.channelIds triggerType).Pairwise (· < ·)) →
        OneRecord pack channelId (history triggerType) (untrimmed triggerType)) := by
  have days := visited.kept found counts recent few
  refine ⟨days, ?_, visited.oneRecord found counts recent few⟩
  intro own day below
  rw [days.kept day below]
  congr 1
  apply List.filter_congr
  intro request mem
  rw [own request mem]

end Recent
end Result

/-! A visit of the day before. -/

def twoDays : ChannelIntervalsPack := buildPack false false 0 [⟨0, 172800, 2, 7⟩]

def twoDaysDictionary : ChannelDictionary := fun _ channelId =>
  if channelId = 1 then some twoDays else none

theorem dayBefore_right : DaysRight twoDays .page 1 1 [⟨1, [⟨1, 1⟩]⟩] [⟨1, [⟨1, 1⟩]⟩]
    [⟨0, 0, fun _ => [1, 2]⟩] := by
  have visit : Visited twoDaysDictionary 0 _ _ _ _ _ :=
    Visited.empty.visit (show 0 < uint 100 by decide) { channelIds := fun _ => [1, 2] }
  have run : Visited twoDaysDictionary 0 _ _ _ _ _ :=
    visit.optimize (show dayOf 0 100 ≤ dayOf 0 (max (uint 86500) 100) by decide)
  exact (visited_daysRight (show twoDaysDictionary .page 1 = some twoDays from rfl)
    (by decide) run (by decide) (by decide)).1

end AdServer.UserInfo
